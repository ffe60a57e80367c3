import Octal.Proofs.Parse
import Octal.Proofs.Scan.Lex

/-!
# Two texts with a semicolon between them

A semicolon ends whatever stands before it and leaves no trace behind it: the scanner goes on as at the
start of a source, only further on (`Source.scan_sequence`). So where the text before it could have
ended, the parser goes on the same way with the next statement (`Program.parse_sequence`). The
statement before the semicolon is the parser's last one only as long as no token comes after; if the
text goes on with an error instead, it is lost (`Program.parse_sequence_of_stray`).
-/

namespace Octal

open Grammar

namespace Scan

theorem Piece.extend?_semicolon (p : Piece) : p.extend? ';' = none := by cases p <;> rfl

namespace State

def shift (n : Nat) (s : State) : State := { s with pos := s.pos + n, start := s.start + n }

theorem shift_run (n : Nat) (s : State) (runes : List Rune) :
    (s.shift n).run .strict .complete runes = (s.run .strict .complete runes).map (Item.mapPos (· + n)) := by
  induction runes generalizing s with
  | nil =>
    rw [run, run, finish, finish, List.map_append, items, items, Piece.map_items]
    rfl
  | cons r runes ih =>
    have hpiece : (s.shift n).piece = s.piece := rfl
    rw [run, run, hpiece]
    cases s.piece.extend? r.char with
    | some q =>
      simp only
      rw [← ih, shift, shift, Nat.add_right_comm]
    | none =>
      simp only
      rw [List.map_append, ← ih, items, items, Piece.map_items, shift, shift, restart, restart]
      simp only [Nat.add_right_comm]
      rfl

/-- A scan fails only where its source is cut off. -/
theorem ending_of_failed_mem_run {cause : Error} {ending : Ending} {s : State} {runes : List Rune}
    (h : .failed cause ∈ s.run .strict ending runes) : ending = .cutOff cause := by
  have hitems (s : State) : Item.failed cause ∉ s.items .strict := by
    rw [items, Piece.items]
    split <;> simp
  induction runes generalizing s with
  | nil =>
    cases ending with
    | complete =>
      rcases List.mem_append.1 h with h | h
      · exact absurd h (hitems s)
      · cases List.mem_singleton.1 h
    | cutOff cause' =>
      rcases List.mem_append.1 h with h | h
      · split at h
        · cases h
        · exact absurd h (hitems s)
      · cases List.mem_singleton.1 h
        rfl
  | cons r runes ih =>
    rw [run] at h
    split at h
    · exact ih h
    · rcases List.mem_append.1 h with h | h
      · exact absurd h (hitems s)
      · exact ih h

theorem failed_not_mem_run (cause : Error) (s : State) (runes : List Rune) :
    .failed cause ∉ s.run .strict .complete runes := fun h => by cases ending_of_failed_mem_run h

/-- What has been scanned does not depend on what follows. -/
theorem exists_run_append (s : State) (runes : List Rune) :
    ∃ (items : List Item) (s' : State), s'.pos = s.pos + (Rune.encode runes).length ∧
      ∀ ending rest, s.run .strict ending (runes ++ rest) = items ++ s'.run .strict ending rest := by
  induction runes generalizing s with
  | nil => exact ⟨[], s, rfl, fun _ _ => rfl⟩
  | cons r runes ih =>
    cases hq : s.piece.extend? r.char with
    | some q =>
      obtain ⟨items, s', hpos, hrun⟩ := ih { s with pos := s.pos + r.width, piece := q }
      refine ⟨items, s', ?_, fun ending rest => ?_⟩
      · rw [hpos, Rune.encode, Rune.encode, List.flatMap_cons, List.length_append, ← Nat.add_assoc]
        rfl
      · rw [List.cons_append, run, hq]
        exact hrun ending rest
    | none =>
      obtain ⟨items, s', hpos, hrun⟩ := ih (s.restart r)
      refine ⟨s.items .strict ++ items, s', ?_, fun ending rest => ?_⟩
      · rw [hpos, Rune.encode, Rune.encode, List.flatMap_cons, List.length_append, ← Nat.add_assoc]
        rfl
      · rw [List.cons_append, run, hq]
        simp only
        rw [hrun, List.append_assoc]

/-- After a semicolon the scanner is back at the start. -/
theorem run_semicolon (s : State) (runes : List Rune) :
    s.run .strict .complete (⟨';', [0x3B]⟩ :: runes) =
      s.items .strict ++ .token ⟨⟨.semicolon, ";"⟩, s.pos⟩ ::
      (initial.run .strict .complete runes).map (Item.mapPos (· + (s.pos + 1))) := by
  have hinit : initial.shift (s.pos + 1) = ⟨s.pos + 1, s.pos + 1, .blank, false⟩ := by simp [shift, initial]
  rw [run, Piece.extend?_semicolon, ← shift_run, hinit]
  simp only
  congr 1
  show run ⟨s.pos + 1, s.pos, .symbol .semicolon ";", s.endsOperand⟩ .strict .complete runes = _
  cases runes <;> rfl

end State

end Scan

namespace Source

/-- The end of the input in a text without `;` is the `;` of the longer one, and what follows is
scanned as if it stood alone. -/
theorem items_sequence (a b : Bytes) : ∃ init,
    (complete a).items = init ++ [.token ⟨⟨.eof, ""⟩, a.length⟩] ∧
    (complete (a ++ Bytes.ofString ";" ++ b)).items = init ++ .token ⟨⟨.semicolon, ";"⟩, a.length⟩ ::
      (complete b).items.map (Item.mapPos (· + (a.length + 1))) := by
  obtain ⟨items, s, hpos, hrun⟩ := Scan.State.initial.exists_run_append (Rune.decode a)
  have hpos : s.pos = a.length := by
    rw [hpos, Rune.encode_decode]
    exact Nat.zero_add _
  refine ⟨items ++ s.items .strict, ?_, ?_⟩
  · have h := hrun .complete []
    rw [List.append_nil] at h
    rw [Source.items, scan, complete, h, List.append_assoc, ← hpos]
    rfl
  · have hd : Rune.decode (a ++ Bytes.ofString ";" ++ b) = Rune.decode a ++ ⟨';', [0x3B]⟩ :: Rune.decode b := by
      rw [List.append_assoc]
      exact Rune.decode_append_ascii (x := 0x3B) (by decide) a b
    rw [Source.items, scan, complete, hd, hrun, Scan.State.run_semicolon, List.append_assoc, hpos]
    rfl

theorem scan_sequence (lexing : Lexing) (a b : Bytes) : ∃ init,
    (complete a).scan lexing = init ++ [.token ⟨⟨.eof, ""⟩, a.length⟩] ∧
    (complete (a ++ Bytes.ofString ";" ++ b)).scan lexing =
      init ++ .token ⟨⟨.semicolon, ";"⟩, a.length⟩ ::
        ((complete b).scan lexing).map (Item.mapPos (· + (a.length + 1))) := by
  obtain ⟨init, ha, hb⟩ := items_sequence a b
  have ht (t : Token) : lexing.admits (.token t) = true := by cases lexing <;> rfl
  refine ⟨init.filter lexing.admits, ?_, ?_⟩
  · rw [scan_eq_filter, ha, List.filter_append, List.filter_cons_of_pos (ht _), List.filter_nil]
  · rw [scan_eq_filter, scan_eq_filter, hb, List.filter_append, List.filter_cons_of_pos (ht _), List.filter_map]
    congr 3
    exact List.filter_congr fun item _ => (lexing.admits_mapPos _ item)

/-- What is left of a complete text when stray characters are dropped begins with a token. -/
theorem exists_token_of_lenient (text : Bytes) :
    ∃ t rest, (complete text).scan .lenient = .token t :: rest := by
  obtain ⟨init, pos, hs, -⟩ := (complete text).scan_eq .lenient
  cases h : (complete text).scan .lenient with
  | nil => simp [h] at hs
  | cons item rest =>
    have hm : item ∈ (complete text).scan .lenient := h ▸ List.mem_cons_self
    rw [scan_eq_filter] at hm
    obtain ⟨hitem, hadmits⟩ := List.mem_filter.1 hm
    cases item with
    | token t => exact ⟨t, rest, rfl⟩
    | stray => cases hadmits
    | failed cause => exact absurd hitem (Scan.State.failed_not_mem_run cause _ _)

/-- Whether the last token of a source is a semicolon. -/
def isTerminated (lexing : Lexing) (src : Source) : Bool :=
  match (src.scan lexing).dropLast.getLast? with
  | some (.token t) => t.kind = .semicolon
  | _ => false

end Source

namespace Parse

/-! ### Statements that could end -/

section
variable {eof : Token} {e : Expr} {stack : List Frame} {y : Option Statement} (he : eof.kind = .eof)
include he

theorem expect_eof_ne_ended {kind : Kind} {next : Stage} (hk : kind ≠ .eof) :
    expect kind eof next ≠ .ended y := by
  rw [expect, he, if_neg hk.symm]
  intro h
  cases h

theorem endStatement_eof {s : Statement} {problem : Lexeme → Problem}
    (h : endStatement s eof problem = .ended y) :
    ∃ x, y = some x ∧ ∀ t : Token, t.kind = .semicolon → endStatement s t problem = .separated x := by
  simp only [endStatement, he] at h
  cases h
  exact ⟨s, rfl, fun t ht => by simp only [endStatement, ht]⟩

theorem delimit_eof (h : delimit e eof stack = .ended y) :
    ∃ x, y = some x ∧ ∀ t : Token, t.kind = .semicolon → delimit e t stack = .separated x := by
  cases stack with
  | nil => exact endStatement_eof he h
  | cons f stack =>
    cases f with
    | paren | condTest | condTrue | bindValue => exact absurd h (expect_eof_ne_ended he (by decide))
    | callArg =>
      rw [delimit, he, if_neg (by decide)] at h
      exact absurd h (expect_eof_ne_ended he (by decide))
    | condFalse | bindBody | neg | right | body => exact endStatement_eof he h

theorem operatorAt_eof (h : operatorAt e stack eof = .ended y) :
    ∃ x, y = some x ∧ ∀ t : Token, t.kind = .semicolon → operatorAt e stack t = .separated x := by
  -- Neither token is an operator, so both of them only close what is open.
  have close {t : Token} (ht : t.kind = .eof ∨ t.kind = .semicolon) :
      operatorAt e stack t = closeAt e stack t := by
    rcases ht with ht | ht <;> simp [operatorAt, Token.operator?, ht]
  rw [close (.inl he)] at h
  obtain ⟨x, hy, hx⟩ := delimit_eof he h
  exact ⟨x, hy, fun t ht => (close (.inr ht)).trans (hx t ht)⟩

/-- Where the input may end, it ends a statement that a semicolon would end as well, unless there
is no statement. -/
theorem Stage.step_eof {stage : Stage} (h : stage.step eof = .ended y) :
    stage = .ended y ∨ (y = none ∧ (stage = .start ∨ ∃ s, stage = .separated s)) ∨
      ∃ x, y = some x ∧ ∀ t : Token, t.kind = .semicolon → stage.step t = .separated x := by
  cases stage with
  | start =>
    simp only [step, statementAt, he] at h
    cases h
    exact .inr (.inl ⟨rfl, .inl rfl⟩)
  | separated s =>
    simp only [step, statementAt, he] at h
    cases h
    exact .inr (.inl ⟨rfl, .inr ⟨s, rfl⟩⟩)
  | operator e stack => exact .inr (.inr (operatorAt_eof he h))
  | ident pos name stack =>
    rw [step, he, if_neg (by decide)] at h
    obtain ⟨x, hy, hx⟩ := operatorAt_eof he h
    refine .inr (.inr ⟨x, hy, fun t ht => ?_⟩)
    rw [step, ht, if_neg (by decide)]
    exact hx t ht
  | ended => exact .inl h
  | failed => cases h
  | expression | operand => simp [step, expressionAt, operandAt, he, fail] at h
  | arguments => simp [step, expressionAt, he, fail] at h
  | bindName | bindAssign | defName | defOpen | defParam | defAssign =>
    exact absurd h (expect_eof_ne_ended he (by decide))
  | defParams =>
    rw [step, he, if_neg (by decide)] at h
    exact absurd h (expect_eof_ne_ended he (by decide))
  | defComma =>
    rw [step] at h
    split at h
    · cases h
    · rw [he, if_neg (by decide)] at h
      exact absurd h (expect_eof_ne_ended he (by decide))

end

namespace State
variable {s : State} {items : List Item}

/-! ### Runs -/

theorem run_failed (ss : List Statement) (cause : Error) (items : List Item) :
    items.foldl feed ⟨ss, .failed cause⟩ = ⟨ss, .failed cause⟩ := by
  induction items with
  | nil => rfl
  | cons item items ih => exact ih

theorem exists_feed_failed {item : Item} (h : ∀ t, item ≠ .token t) (s : State) :
    ∃ cause, s.feed item = ⟨s.statements, .failed cause⟩ := by
  obtain ⟨ss, stage⟩ := s
  cases item with
  | token t => exact absurd rfl (h t)
  | stray pos c => cases stage <;> exact ⟨_, rfl⟩
  | failed cause => cases stage <;> exact ⟨_, rfl⟩

/-- A parse that has not failed got tokens only. -/
theorem exists_tokens (h : ∀ cause, (items.foldl feed s).stage ≠ .failed cause) :
    ∃ ts : List Token, items = ts.map .token := by
  induction items generalizing s with
  | nil => exact ⟨[], rfl⟩
  | cons item items ih =>
    by_cases ht : ∃ t, item = .token t
    · obtain ⟨t, rfl⟩ := ht
      obtain ⟨ts, rfl⟩ := ih h
      exact ⟨t :: ts, rfl⟩
    · obtain ⟨cause, hc⟩ := exists_feed_failed (fun t hx => ht ⟨t, hx⟩) s
      rw [List.foldl_cons, hc, run_failed] at h
      exact absurd rfl (h cause)

/-- The state with `ss` read before. -/
def onto (ss : List Statement) (s : State) : State := ⟨s.statements ++ ss, s.stage⟩

theorem feed_onto (ss : List Statement) (s : State) (item : Item) :
    (s.onto ss).feed item = (s.feed item).onto ss := by
  obtain ⟨statements, stage⟩ := s
  cases stage <;> cases item <;> rfl

theorem run_onto (ss : List Statement) (s : State) (items : List Item) :
    items.foldl feed (s.onto ss) = (items.foldl feed s).onto ss := by
  induction items generalizing s with
  | nil => rfl
  | cons item items ih => rw [List.foldl_cons, List.foldl_cons, feed_onto, ih]

theorem program_onto (ss : List Statement) (s : State) :
    (s.onto ss).program = ⟨ss.reverse ++ s.program.statements, s.program.fault⟩ := by
  obtain ⟨statements, stage⟩ := s
  cases stage with
  | ended x => cases x <;> simp [program, onto]
  | _ => simp [program, onto]

end State

end Parse

namespace Program
open Parse
variable {lexing : Lexing} {a : Bytes} {trees : List Statement}

theorem exists_tokens_of_fault {items : List Item} (h : (ofItems items).fault = none) :
    ∃ ts : List Token, items = ts.map .token := by
  refine State.exists_tokens (s := .initial) fun cause hc => ?_
  rw [ofItems, State.program, hc] at h
  cases h

/-- Only a source without tokens parses to no statements. -/
theorem kind_eq_eof_of_parse {src : Source} {t : Token} {rest : List Item}
    (h : parse lexing src = ⟨[], none⟩) (hs : src.scan lexing = .token t :: rest) : t.kind = .eof := by
  have hf : (ofItems (src.scan lexing)).fault = none := by rw [← parse, h]
  obtain ⟨ts, hts⟩ := exists_tokens_of_fault hf
  obtain ⟨init, eof, rfl, hk, hp⟩ := Source.exists_eof_of_scan hts
  rw [parse, hts] at h
  obtain ⟨d, htokens, -, hd⟩ := exists_script (fun t ht => (hp t ht).kind_ne_eof) ⟨eof, by simp [hk]⟩ h
  cases d with
  | done eof' =>
    cases init with
    | nil =>
      rw [hs] at hts
      cases hts
      exact hk
    | cons => simp at htokens
  | last | next => cases hd

/-- A parse that could end, and not just before a statement, has read one if a semicolon comes
instead. -/
theorem exists_separated {init : List Item} {eof : Token} (hinit : ∀ t, .token t ∈ init → t.kind ≠ .eof)
    (he : eof.kind = .eof) (semicolon : Terminal [.semicolon])
    (h : ofItems (init ++ [.token eof]) = ⟨trees, none⟩) (hne : trees ≠ [])
    (hlast : ∀ t, init.getLast? = some (.token t) → t.kind ≠ .semicolon) :
    ∃ ss x, (init ++ [Item.token semicolon.1]).foldl State.feed .initial = ⟨ss, .separated x⟩ ∧
      trees = ss.reverse ++ [x] := by
  obtain ⟨ts', hts'⟩ := exists_tokens_of_fault (congrArg Program.fault h)
  obtain ⟨ts, _, -, rfl, -⟩ := List.map_eq_append_iff.1 hts'.symm
  have hts : ∀ t ∈ ts, t.kind ≠ .eof := fun t ht => hinit t (List.mem_map_of_mem ht)
  have hlast (ts' : List Token) (t : Terminal [.semicolon]) : ts ≠ ts' ++ [t.1] :=
    fun hts' => hlast t.1 (by simp [hts']) t.kind_eq
  have hr : ((ts.map Item.token).foldl State.feed .initial).Reads ts :=
    State.reads_initial.run (by simpa using hts)
  have hend := hr.not_ended hts
  rw [ofItems, List.foldl_append] at h
  rw [List.foldl_append]
  generalize (ts.map Item.token).foldl State.feed .initial = s at h hr hend
  change (s.feed (.token eof)).program = _ at h
  show ∃ ss x, s.feed (.token semicolon.1) = _ ∧ _
  obtain ⟨y, hy⟩ := State.exists_ended he (congrArg Program.fault h)
  rw [State.stage_feed_token] at hy
  obtain ⟨ss, stage⟩ := s
  obtain ⟨ts₁, ts₂, hts', hd, hr⟩ := hr
  rcases Stage.step_eof he hy with rfl | ⟨rfl, rfl | ⟨x, rfl⟩⟩ | ⟨x, rfl, hx⟩
  · exact absurd rfl (hend y)
  · -- No statement has begun, so the last one was ended by a semicolon.
    change State.program ⟨ss, Stage.start.step eof⟩ = _ at h
    rw [hy] at h
    cases h
    obtain rfl : ts₂ = [] := hr
    cases hd with
    | nil => exact absurd rfl hne
    | @snoc ss x ts₁ ts₃ _ _ t => exact absurd (by simp [hts']) (hlast (ts₁ ++ ts₃) t)
  · obtain ⟨ts₃, t, rfl, -⟩ := hr
    exact absurd (by simp [hts']) (hlast (ts₁ ++ ts₃) t)
  · have hsep : ∀ x', stage ≠ .separated x' := by
      rintro x' rfl
      simp [Stage.step, statementAt, he] at hy
    rw [State.feed_token hsep, hy] at h
    cases h
    refine ⟨ss, x, ?_, List.reverse_cons⟩
    rw [State.feed_token hsep, hx _ semicolon.kind_eq]

theorem exists_items_sequence (h : parse lexing (.complete a) = ⟨trees, none⟩) (hne : trees ≠ [])
    (hl : (Source.complete a).isTerminated lexing = false) (b : Bytes) :
    ∃ ss x, trees = ss.reverse ++ [x] ∧ parse lexing (.complete (a ++ Bytes.ofString ";" ++ b)) =
      ((((Source.complete b).scan lexing).map (Item.mapPos (· + (a.length + 1)))).foldl State.feed
        ⟨ss, .separated x⟩).program := by
  obtain ⟨init, ha, hab⟩ := Source.scan_sequence lexing a b
  obtain ⟨init', pos, hs, hp⟩ := (Source.complete a).scan_eq lexing
  obtain ⟨rfl, -⟩ := List.append_inj' (ha.symm.trans hs) rfl
  rw [Source.isTerminated, ha, List.dropLast_concat] at hl
  rw [parse, ha] at h
  obtain ⟨ss, x, hrun, htrees⟩ := exists_separated (fun t ht => (hp t ht).kind_ne_eof) rfl
    ⟨⟨⟨.semicolon, ";"⟩, a.length⟩, by simp⟩ h hne fun t ht => by simpa [ht] using hl
  refine ⟨ss, x, htrees, ?_⟩
  rw [parse, hab, ofItems, List.append_cons, List.foldl_append, hrun]

/-- Statements after a semicolon are read as they are alone. -/
theorem parse_sequence (h : parse lexing (.complete a) = ⟨trees, none⟩) (hne : trees ≠ [])
    (hl : (Source.complete a).isTerminated lexing = false) {b : Bytes} {t : Token} {rest : List Item}
    (hb : (Source.complete b).scan lexing = .token t :: rest) :
    parse lexing (.complete (a ++ Bytes.ofString ";" ++ b)) =
      ⟨trees ++ ((parse lexing (.complete b)).mapPos (· + (a.length + 1))).statements,
        ((parse lexing (.complete b)).mapPos (· + (a.length + 1))).fault⟩ := by
  obtain ⟨ss, x, rfl, hab⟩ := exists_items_sequence h hne hl b
  rw [hab, parse, ← ofItems_mapPos, hb, ← List.reverse_cons, ofItems, ← State.program_onto, ← State.run_onto]
  rfl

/-- A semicolon does not make good the statement before it, when no token can be read after it. -/
theorem parse_sequence_of_stray (h : parse lexing (.complete a) = ⟨trees, none⟩) (hne : trees ≠ [])
    (hl : (Source.complete a).isTerminated lexing = false) {b : Bytes}
    (hb : ∀ t rest, (Source.complete b).scan lexing ≠ .token t :: rest) :
    ∃ cause, parse lexing (.complete (a ++ Bytes.ofString ";" ++ b)) = ⟨trees.dropLast, some cause⟩ := by
  obtain ⟨ss, x, rfl, hab⟩ := exists_items_sequence h hne hl b
  obtain ⟨init, pos, hs, -⟩ := (Source.complete b).scan_eq lexing
  cases hitems : (Source.complete b).scan lexing with
  | nil => simp [hitems] at hs
  | cons item rest =>
    have hitem : ∀ t, item.mapPos (· + (a.length + 1)) ≠ .token t := by
      intro t ht
      cases item with
      | token t => exact hb t rest hitems
      | stray | failed => cases ht
    obtain ⟨cause, hc⟩ := State.exists_feed_failed hitem ⟨ss, .separated x⟩
    refine ⟨cause, ?_⟩
    rw [hab, hitems, List.map_cons, List.foldl_cons, hc, State.run_failed, List.dropLast_concat]
    rfl

end Program

end Octal
