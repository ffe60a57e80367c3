import Mathlib
import Octal.Proofs.Session

/-!
# Lenient scanning

A lenient scan of a text finds what a strict scan finds in the text with its stray characters blanked out
(`Source.items_blanked`), and nothing but the scan depends on the lexing (`Session.run_lexing`).

A stray character ends the piece before it and leaves no token, and so does a space. But a `!` is stray only if no `=`
follows, and so the two scans are compared with the piece of the one blank already and that of the other still to be
ended (`Scan.State.run_veil`).
-/

namespace Octal

open Scan

/-! ### Runes overwritten by spaces -/

namespace Rune

def space : Rune := ⟨' ', [0x20]⟩

/-- The runes from the offset `pos` on, those that start at a bad offset overwritten by spaces. -/
def blankOut (bad : Nat → Bool) : Nat → List Rune → List Rune
  | _, [] => []
  | pos, r :: rest => (if bad pos then List.replicate r.width space else [r]) ++ blankOut bad (pos + r.width) rest

variable {bad : Nat → Bool} {pos : Nat} {runes : List Rune}

theorem length_encode_blankOut : (encode (blankOut bad pos runes)).length = (encode runes).length := by
  induction runes generalizing pos with
  | nil => rfl
  | cons r runes ih =>
    have hr : (encode (if bad pos then List.replicate r.width space else [r])).length = r.width := by
      split
      · simp [encode, space, List.flatMap_replicate]
      · simp [encode, width]
    simp only [encode, blankOut, List.flatMap_append, List.flatMap_cons, List.length_append] at ih hr ⊢
    rw [ih, hr, width]

theorem mem_blankOut {r : Rune} (h : r ∈ blankOut bad pos runes) :
    r = space ∨ ∃ before after, runes = before ++ r :: after ∧ bad (pos + (encode before).length) = false := by
  induction runes generalizing pos with
  | nil => cases h
  | cons r' runes ih =>
    rw [blankOut] at h
    rcases List.mem_append.1 h with h | h
    · split at h
      · exact .inl (List.eq_of_mem_replicate h)
      · next hbad =>
        obtain rfl := List.mem_singleton.1 h
        exact .inr ⟨[], runes, rfl, Bool.eq_false_of_not_eq_true hbad⟩
    · rcases ih h with h | ⟨before, after, rfl, hbad⟩
      · exact .inl h
      · refine .inr ⟨r' :: before, after, rfl, ?_⟩
        rw [← hbad, encode, List.flatMap_cons, List.length_append, ← encode, ← width, Nat.add_assoc]

theorem whole_space : space.Whole := fun _ => decode_cons [] (first_one _ (by decide))

end Rune

/-! ### Two scans side by side -/

namespace Scan

namespace Piece
variable {p q : Piece} {c : Char} {pos : Nat}

theorem extend?_space (p : Piece) : p.extend? ' ' = none := by cases p <;> rfl

theorem extend?_replacement (p : Piece) : p.extend? Rune.replacement = none := by cases p <;> rfl

theorem begin_replacement (afterOperand : Bool) : begin afterOperand Rune.replacement = .stray Rune.replacement := by
  cases afterOperand <;> rfl

theorem lexeme?_of_stray? (h : p.stray? = some c) : p.lexeme? = none := by
  cases p with
  | stray => rfl
  | relation r =>
    simp only [stray?, Option.ite_none_right_eq_some] at h
    exact if_pos h.1
  | blank | digits | word | sign | symbol => cases h

/-- What has been extended will be a token. -/
theorem stray?_of_extend (h : p.extend? c = some q) : q.stray? = none := by
  cases p with
  | blank | stray | symbol => cases h
  | digits | word | sign | relation =>
    simp only [extend?, Option.ite_none_right_eq_some] at h
    cases h.2
    rfl

theorem items_of_stray? (h : p.stray? = some c) : p.items .strict pos = [.stray pos c] := by
  rw [items, lexeme?_of_stray? h, h]

theorem items_lenient_of_stray? (h : p.stray? = some c) : p.items .lenient pos = [] := by
  rw [items, lexeme?_of_stray? h, h]

theorem stray_mem_items {p' : Nat} (h : .stray p' c ∈ p.items .strict pos) : p' = pos ∧ p.stray? = some c := by
  unfold items at h
  split at h
  · cases List.mem_singleton.1 h
  · next hc =>
    cases List.mem_singleton.1 h
    exact ⟨rfl, hc⟩
  · cases h

theorem items_lenient (h : p.stray? = none) : p.items .lenient pos = p.items .strict pos := by
  unfold items
  rw [h]
  cases p.lexeme? <;> rfl

end Piece

namespace State
variable {s : State} {runes : List Rune} {pos : Nat} {c : Char} {bad : Nat → Bool}

section
variable {r : Rune} (lexing : Lexing) (ending : Ending) (rest : List Rune)

theorem run_of_extend {q : Piece} (h : s.piece.extend? r.char = some q) :
    s.run lexing ending (r :: rest) = run { s with pos := s.pos + r.width, piece := q } lexing ending rest := by
  rw [run, h]

theorem run_of_end (h : s.piece.extend? r.char = none) :
    s.run lexing ending (r :: rest) = s.items lexing ++ (s.restart r).run lexing ending rest := by
  rw [run, h]

end

/-- The runes of the piece come before the next one; only a blank piece can have none. -/
def Begun (s : State) : Prop := s.start < s.pos ∨ s.start = s.pos ∧ s.piece = .blank

theorem Begun.le (h : s.Begun) : s.start ≤ s.pos := by
  rcases h with h | ⟨h, -⟩
  · exact h.le
  · exact h.le

theorem begun_restart {r : Rune} (hr : 0 < r.width) : (s.restart r).Begun :=
  .inl (Nat.lt_add_of_pos_right hr)

/-- A stray character of the rest of a source is the piece or comes after it. -/
theorem stray_mem_run (h : .stray pos c ∈ s.run .strict .complete runes) :
    pos = s.start ∧ s.piece.stray? = some c ∨ s.pos ≤ pos := by
  induction runes generalizing s with
  | nil =>
    rcases List.mem_append.1 h with h | h
    · exact .inl (Piece.stray_mem_items h)
    · cases List.mem_singleton.1 h
  | cons r runes ih =>
    rw [run] at h
    split at h
    · next q hq =>
      rcases ih h with ⟨-, hstray⟩ | hle
      · rw [Piece.stray?_of_extend hq] at hstray
        cases hstray
      · exact .inr ((Nat.le_add_right _ _).trans hle)
    · rcases List.mem_append.1 h with h | h
      · exact .inl (Piece.stray_mem_items h)
      · rcases ih h with ⟨rfl, -⟩ | hle
        · exact .inr le_rfl
        · exact .inr ((Nat.le_add_right _ _).trans hle)

/-- The bad offsets from the piece on are those of the stray characters. -/
def Marks (bad : Nat → Bool) (s : State) (runes : List Rune) : Prop :=
  ∀ pos, s.start ≤ pos → (bad pos = true ↔ ∃ c, .stray pos c ∈ s.run .strict .complete runes)

/-- The state with the piece blanked out if it starts at a bad offset. -/
def veil (bad : Nat → Bool) (s : State) : State := { s with piece := if bad s.start then .blank else s.piece }

theorem veil_eq_self (h : bad s.start = false) : s.veil bad = s := by
  rw [veil, h]
  rfl

theorem veil_of_bad (h : bad s.start = true) : s.veil bad = { s with piece := .blank } := by
  rw [veil, if_pos h]

theorem extend?_veil (h : s.piece.extend? c = none) : (s.veil bad).piece.extend? c = none := by
  cases hb : bad s.start with
  | true =>
    rw [veil_of_bad hb]
    rfl
  | false => rwa [veil_eq_self hb]

/-- The piece starts at a bad offset if it is a stray character, and only then. The blank that a scan begins with
may start where a stray character does. -/
def Settled (bad : Nat → Bool) (s : State) : Prop :=
  s.piece = .blank ∨ (bad s.start = true ↔ ∃ c, s.piece.stray? = some c)

section
variable (h : s.Settled bad)
include h

/-- Blanking out a piece takes away its stray character, and no token. -/
theorem items_veil : (s.veil bad).items .strict = s.items .lenient := by
  cases hb : bad s.start with
  | true =>
    rw [veil_of_bad hb]
    rcases h with h | h
    · rw [items, items, h]
      rfl
    · obtain ⟨c, hc⟩ := h.1 hb
      rw [items, items, Piece.items_lenient_of_stray? hc]
      rfl
  | false =>
    rw [veil_eq_self hb, items, items, Piece.items_lenient]
    rcases h with h | h
    · rw [h]
      rfl
    · refine Option.eq_none_iff_forall_ne_some.2 fun c hc => ?_
      rw [h.2 ⟨c, hc⟩] at hb
      cases hb

theorem endsOperand_veil : (s.veil bad).endsOperand = s.endsOperand := by
  cases hb : bad s.start with
  | true =>
    have hnone : s.piece.lexeme? = none := by
      rcases h with h | h
      · rw [h]
        rfl
      · obtain ⟨c, hc⟩ := h.1 hb
        exact Piece.lexeme?_of_stray? hc
    rw [veil_of_bad hb, endsOperand, endsOperand, hnone]
    rfl
  | false => rw [veil_eq_self hb]

end

/-- Spaces move a blank piece on, and it does not matter where it started. -/
theorem run_spaces (ending : Ending) (n pos start start' : Nat) (afterOperand : Bool) (rest : List Rune) :
    run ⟨pos, start, .blank, afterOperand⟩ .strict ending (List.replicate n Rune.space ++ rest) =
      run ⟨pos + n, start', .blank, afterOperand⟩ .strict ending rest := by
  induction n generalizing pos start with
  | zero =>
    cases rest with
    | nil => cases ending <;> rfl
    | cons r rest => rfl
  | succ n ih =>
    have hspace := ih (pos + 1) pos
    rw [Nat.add_right_comm, Nat.add_assoc] at hspace
    exact hspace

/-- Spaces end any piece. -/
theorem run_replicate_space {n : Nat} (hn : 0 < n) (s : State) (ending : Ending) (rest : List Rune) :
    s.run .strict ending (List.replicate n Rune.space ++ rest) =
      s.items .strict ++ run ⟨s.pos + n, s.pos, .blank, s.endsOperand⟩ .strict ending rest := by
  obtain ⟨n, rfl⟩ := Nat.exists_eq_succ_of_ne_zero hn.ne'
  have hspaces := run_spaces ending n (s.pos + 1) s.pos s.pos s.endsOperand rest
  rw [Nat.add_assoc, Nat.add_comm 1] at hspaces
  rw [← hspaces, List.replicate_succ, List.cons_append, run_of_end _ _ _ s.piece.extend?_space]
  rfl

/-- The step of the comparison at which the piece grows. -/
theorem Marks.extend {r : Rune} {q : Piece} (hbad : s.Marks bad (r :: runes)) (hs : s.Begun) (hr : 0 < r.width)
    (hq : s.piece.extend? r.char = some q) :
    bad s.start = false ∧ bad s.pos = false ∧ Marks bad { s with pos := s.pos + r.width, piece := q } runes := by
  have hrun := run_of_extend .strict .complete runes hq
  have hfalse : ∀ pos, s.start ≤ pos → pos ≤ s.pos → bad pos = false := by
    intro pos hstart hpos
    rw [← Bool.not_eq_true, hbad pos hstart]
    rintro ⟨c, hc⟩
    rw [hrun] at hc
    rcases stray_mem_run hc with ⟨-, hstray⟩ | hle
    · rw [Piece.stray?_of_extend hq] at hstray
      cases hstray
    · have hle : s.pos + r.width ≤ pos := hle
      omega
  refine ⟨hfalse _ le_rfl hs.le, hfalse _ hs.le le_rfl, fun pos hpos => ?_⟩
  rw [hbad pos hpos, hrun]

/-- Nothing that comes after the piece starts where it does. -/
theorem Marks.settled {later : List Item} (hbad : s.Marks bad runes) (hs : s.Begun)
    (hrun : s.run .strict .complete runes = s.items .strict ++ later)
    (hlater : ∀ pos c, .stray pos c ∈ later → s.pos ≤ pos) : s.Settled bad := by
  rcases hs with hs | ⟨-, hblank⟩
  · right
    rw [hbad _ le_rfl, hrun]
    constructor
    · rintro ⟨c, hc⟩
      rcases List.mem_append.1 hc with hc | hc
      · exact ⟨c, (Piece.stray_mem_items hc).2⟩
      · have := hlater _ _ hc
        omega
    · rintro ⟨c, hc⟩
      refine ⟨c, List.mem_append_left _ ?_⟩
      rw [items, Piece.items_of_stray? hc]
      exact List.mem_singleton_self _
  · exact .inl hblank

/-- The step of the comparison at which the piece ends. -/
theorem Marks.restart {r : Rune} (hbad : s.Marks bad (r :: runes)) (hs : s.Begun)
    (hq : s.piece.extend? r.char = none) : s.Settled bad ∧ (s.restart r).Marks bad runes := by
  have hrun := run_of_end .strict .complete runes hq
  refine ⟨hbad.settled hs hrun fun pos c hc => ?_, ?_⟩
  · rcases stray_mem_run hc with ⟨rfl, -⟩ | hle
    · exact le_rfl
    · exact (Nat.le_add_right _ _).trans hle
  intro pos hpos
  have hpos : s.pos ≤ pos := hpos
  rw [hbad pos (hs.le.trans hpos), hrun]
  constructor
  · rintro ⟨c, hc⟩
    rcases List.mem_append.1 hc with hc | hc
    · obtain ⟨rfl, hstray⟩ := Piece.stray_mem_items hc
      rcases hs with hs | ⟨-, hblank⟩
      · omega
      · rw [hblank] at hstray
        cases hstray
    · exact ⟨c, hc⟩
  · rintro ⟨c, hc⟩
    exact ⟨c, List.mem_append_right _ hc⟩

/-- A scan of the runes with the stray ones blanked out finds all the rest. -/
theorem run_veil (hw : ∀ r ∈ runes, 0 < r.width) (hs : s.Begun) (hbad : s.Marks bad runes) :
    (s.veil bad).run .strict .complete (Rune.blankOut bad s.pos runes) = s.run .lenient .complete runes := by
  induction runes generalizing s with
  | nil =>
    have hrun : s.run .strict .complete [] = s.items .strict ++ [.token ⟨⟨.eof, ""⟩, s.pos⟩] := rfl
    have hpiece := hbad.settled hs hrun (by simp)
    rw [Rune.blankOut, run, run, finish, finish, items_veil hpiece]
    rfl
  | cons r runes ih =>
    obtain ⟨hr, hw⟩ := List.forall_mem_cons.1 hw
    rw [Rune.blankOut]
    cases hq : s.piece.extend? r.char with
    | some q =>
      obtain ⟨hstart, hpos, hnext⟩ := hbad.extend hs hr hq
      have hlt : s.start < s.pos + r.width := Nat.lt_of_le_of_lt hs.le (Nat.lt_add_of_pos_right hr)
      have hrest := ih hw (.inl hlt) hnext
      rw [veil_eq_self (s := { s with pos := s.pos + r.width, piece := q }) hstart] at hrest
      rw [run_of_extend _ _ _ hq, ← hrest, veil_eq_self hstart, hpos]
      exact run_of_extend _ _ _ hq
    | none =>
      obtain ⟨hpiece, hnext⟩ := hbad.restart hs hq
      have hrest := ih hw (begun_restart hr) hnext
      rw [run_of_end _ _ _ hq, ← items_veil hpiece, ← hrest]
      -- The rune begins the same piece in both scans, or a piece that is not stray yet in one and blank in the other.
      cases hpos : bad s.pos with
      | false =>
        have hveil : (s.veil bad).piece.extend? r.char = none := extend?_veil hq
        have hstep := run_of_end .strict .complete (Rune.blankOut bad (s.pos + r.width) runes) hveil
        rw [restart, endsOperand_veil hpiece] at hstep
        rw [veil_eq_self (s := s.restart r) hpos]
        exact hstep
      | true =>
        rw [veil_of_bad (s := s.restart r) hpos, if_pos rfl, run_replicate_space hr, endsOperand_veil hpiece]
        rfl

/-- A byte that begins no valid sequence is stray wherever it stands. -/
theorem stray_mem_run_of_replacement {r : Rune} (hr : r.char = Rune.replacement) (s : State)
    (before after : List Rune) :
    .stray (s.pos + (Rune.encode before).length) Rune.replacement ∈
      s.run .strict .complete (before ++ r :: after) := by
  obtain ⟨items, s', hpos, hrun⟩ := s.exists_run_append before
  have hend : s'.piece.extend? r.char = none := by rw [hr, Piece.extend?_replacement]
  have hpiece : (s'.restart r).piece = .stray Rune.replacement := by
    show Piece.begin _ r.char = _
    rw [hr, Piece.begin_replacement]
  have hitems : .stray s'.pos Rune.replacement ∈ (s'.restart r).items .strict := by
    rw [State.items, hpiece]
    exact List.mem_singleton_self _
  rw [hrun, run_of_end _ _ _ hend, ← hpos]
  refine List.mem_append_right _ (List.mem_append_right _ ?_)
  cases after with
  | nil => exact List.mem_append_left _ hitems
  | cons r' after =>
    rw [run_of_end _ _ _ (by rw [hpiece]; rfl)]
    exact List.mem_append_left _ hitems

end State

end Scan

/-! ### The blanked text -/

/-- The item is a character that belongs to no token, at the offset `pos`. -/
def Item.isStrayAt (pos : Nat) : Item → Bool
  | .stray pos' _ => pos' == pos
  | _ => false

def Item.token? : Item → Option Token
  | .token t => some t
  | _ => none

theorem Item.filter_admits {items : List Item} (h : ∀ cause, .failed cause ∉ items) :
    items.filter Lexing.lenient.admits = (items.filterMap token?).map .token := by
  induction items with
  | nil => rfl
  | cons item items ih =>
    have hrest := ih fun cause hmem => h cause (List.mem_cons_of_mem _ hmem)
    cases item with
    | token t =>
      rw [List.filter_cons_of_pos rfl, hrest]
      rfl
    | stray =>
      rw [List.filter_cons_of_neg Bool.false_ne_true, hrest]
      rfl
    | failed cause => exact absurd List.mem_cons_self (h cause)

namespace Source

/-- The tokens of a source, the errors dropped. -/
def tokens (lexing : Lexing) (src : Source) : List Token := (src.scan lexing).filterMap Item.token?

/-- Whether a strict scan of the text finds a stray character at the offset `pos`. -/
def isStrayAt (text : Bytes) (pos : Nat) : Bool := ((complete text).scan .strict).any (Item.isStrayAt pos)

/-- The text with every stray character overwritten by as many spaces as it has bytes. -/
def blanked (text : Bytes) : Bytes := Rune.encode (Rune.blankOut (isStrayAt text) 0 (Rune.decode text))

variable (text : Bytes)

theorem length_blanked : (blanked text).length = text.length := by
  rw [blanked, Rune.length_encode_blankOut, Rune.encode_decode]

theorem isStrayAt_iff {pos : Nat} : isStrayAt text pos = true ↔ ∃ c, .stray pos c ∈ (complete text).items := by
  rw [isStrayAt, scan_strict, List.any_eq_true]
  constructor
  · rintro ⟨item, hitem, hpos⟩
    cases item with
    | stray pos' c =>
      obtain rfl : pos' = pos := beq_iff_eq.1 hpos
      exact ⟨c, hitem⟩
    | token | failed => cases hpos
  · rintro ⟨c, hc⟩
    exact ⟨_, hc, beq_self_eq_true pos⟩

/-- The runes that are left as they are can be read back. -/
theorem decode_blanked :
    Rune.decode (blanked text) = Rune.blankOut (isStrayAt text) 0 (Rune.decode text) := by
  refine Rune.decode_encode fun r hr => ?_
  rcases Rune.mem_blankOut hr with rfl | ⟨before, after, htext, hbad⟩
  · exact Rune.whole_space
  · have hmem : r ∈ Rune.decode text := htext ▸ List.mem_append_right _ List.mem_cons_self
    refine Rune.whole_of_mem_decode hmem fun hreplacement => ?_
    have hstray := State.stray_mem_run_of_replacement hreplacement .initial before after
    rw [← htext] at hstray
    have htrue : isStrayAt text (0 + (Rune.encode before).length) = true := (isStrayAt_iff text).2 ⟨_, hstray⟩
    rw [htrue] at hbad
    cases hbad

/-- What a scan finds in the blanked text is all that it finds in the text but the stray characters. -/
theorem items_blanked : (complete (blanked text)).items = (complete text).scan .lenient := by
  have hbad : State.initial.Marks (isStrayAt text) (Rune.decode text) := fun pos _ => isStrayAt_iff text
  have hrun := State.run_veil (fun r => Rune.width_pos_of_mem_decode) (.inr ⟨rfl, rfl⟩) hbad
  have hveil : State.initial.veil (isStrayAt text) = .initial := by
    unfold State.veil
    split <;> rfl
  rw [hveil] at hrun
  refine Eq.trans ?_ hrun
  show State.initial.run .strict .complete (Rune.decode (blanked text)) = _
  rw [decode_blanked]
  rfl

/-- In `3!=5!§`, the second `!` and the two bytes of the section sign. -/
example : blanked [0x33, 0x21, 0x3D, 0x35, 0x21, 0xC2, 0xA7] = [0x33, 0x21, 0x3D, 0x35, 0x20, 0x20, 0x20] := by
  decide +kernel

/-- Without its stray characters a complete text consists of tokens. -/
theorem scan_lenient : (complete text).scan .lenient = ((complete text).tokens .strict).map .token := by
  rw [scan_eq_filter, tokens, scan_strict]
  exact Item.filter_admits fun cause => State.failed_not_mem_run cause _ _

end Source

/-! ### Evaluating it -/

theorem callAt_lexing (settings : Settings) (lexing : Lexing) (registry : Registry) (remaining : Nat) :
    callAt { settings with lexing } registry remaining = callAt settings registry remaining := by
  induction remaining with
  | zero => rfl
  | succ remaining ih =>
    funext f args
    rw [callAt, callAt, ih]

theorem execute_lexing (settings : Settings) (lexing : Lexing) (registry : Registry) (trace : Trace) (last : Value)
    (statements : List Statement) :
    execute { settings with lexing } registry trace last statements =
      execute settings registry trace last statements := by
  induction statements generalizing registry trace last with
  | nil => rfl
  | cons s statements ih =>
    have hvalue : s.value { settings with lexing } registry = s.value settings registry := by
      cases s with
      | eval e => rw [Statement.value, Statement.value, callAt_lexing]
      | define => rfl
    rw [execute, execute, hvalue]
    split
    · exact ih _ _ _
    · rfl

namespace Session

theorem run_lexing (settings : Settings) (lexing : Lexing) (registry : Registry) (p : Program) :
    (mk { settings with lexing } registry).run p = (mk settings registry).run p := by
  rw [run, run, execute_lexing]

/-- In lenient lexing a text is what it is in strict lexing with every stray character blanked out. Both give the same
tokens, at the same offsets, which are those of a strict scan of the text itself that goes on after errors, and
evaluating them gives the same result and the same functions. -/
theorem outcome_lenient_eq_blanked (text : Bytes) :
    (Source.blanked text).length = text.length ∧
    (∃ tokens : List Token, (Source.complete (Source.blanked text)).scan .strict = tokens.map .token ∧
      (Source.complete text).scan .lenient = tokens.map .token ∧
      (Source.complete text).tokens .strict = tokens) ∧
    ∀ (settings : Settings) (registry : Registry),
      (mk { settings with lexing := .lenient } registry).outcome (.complete text) =
        (mk { settings with lexing := .strict } registry).outcome (.complete (Source.blanked text)) := by
  have hscan : (Source.complete (Source.blanked text)).scan .strict = (Source.complete text).scan .lenient := by
    rw [Source.scan_strict, Source.items_blanked]
  have htokens := Source.scan_lenient text
  refine ⟨Source.length_blanked text, ⟨_, hscan.trans htokens, htokens, rfl⟩, fun settings registry => ?_⟩
  have hparse : Program.parse .strict (.complete (Source.blanked text)) = .parse .lenient (.complete text) := by
    rw [Program.parse, hscan, Program.parse]
  calc (mk { settings with lexing := .lenient } registry).outcome (.complete text)
    _ = (mk settings registry).run (.parse .lenient (.complete text)) := run_lexing settings .lenient registry _
    _ = (mk settings registry).run (.parse .strict (.complete (Source.blanked text))) := by rw [hparse]
    _ = _ := (run_lexing settings .strict registry _).symm

end Session

end Octal
