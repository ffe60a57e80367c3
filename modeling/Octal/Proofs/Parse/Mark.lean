import Mathlib
import Octal.Proofs.Parse.Completeness
import Octal.Proofs.Scan.Order

/-!
# The places of nodes

Every node of a tree was made at one token: a numeral, a name, a minus, an operator or the keyword that begins the
construct. `Expr.marks` lists these tokens as the tree alone tells them, with the places the nodes have, in the order in
which they are written. A phrase has the marks of its meaning among its tokens, in the same order (`Phrase.heads`), and
so the marks of a statement are found in its source, one after the other.
-/

namespace Octal

open Grammar Scan

/-- What stands where a node is. A number does not tell how it was spelled. -/
inductive Mark where
  | numeral (value : Value)
  | lexeme (l : Lexeme)

/-- `l` is the lexeme that the mark speaks of. -/
def Mark.Reads : Mark → Lexeme → Prop
  | numeral value, l => l.kind = .number ∧ Numeral.decode l.text.toList = .ok value
  | lexeme l', l => l = l'

mutual

/-- The marks of the nodes with their places, in the order as written: an operator between its operands, everything
else before what belongs to it. -/
def Expr.marks : Expr → List (Nat × Mark)
  | num pos value => [(pos, .numeral value)]
  | var pos name => [(pos, .lexeme ⟨.ident, name⟩)]
  | neg pos e => (pos, .lexeme ⟨.minus, "-"⟩) :: e.marks
  | binary pos op l r => l.marks ++ (pos, .lexeme ⟨op.kind, op.symbol⟩) :: r.marks
  | cond pos c t e => (pos, .lexeme ⟨.kwIf, "IF"⟩) :: (c.marks ++ (t.marks ++ e.marks))
  | bind pos _ v b => (pos, .lexeme ⟨.kwLet, "LET"⟩) :: (v.marks ++ b.marks)
  | call pos name args => (pos, .lexeme ⟨.ident, name⟩) :: marksAll args

def Expr.marksAll : List Expr → List (Nat × Mark)
  | [] => []
  | e :: rest => e.marks ++ marksAll rest

end

def Statement.marks : Statement → List (Nat × Mark)
  | eval e => e.marks
  | define pos f => (pos, .lexeme ⟨.kwDef, "DEF"⟩) :: f.body.marks

/-! ### The texts of operators -/

namespace Lexeme.Fits
variable {t : Token}

theorem eq_operator (h : t.toLexeme.Fits)
    (hk : t.kind ∈ [Kind.plus, .minus, .times, .divide, .modulo, .power, .compare]) :
    t.toLexeme = ⟨(operatorOf t).kind, (operatorOf t).symbol⟩ := by
  obtain ⟨l, pos⟩ := t
  cases h with
  | numeral => exact absurd hk (by simp)
  | @word text _ =>
    have hdisjoint : ∀ k ∈ [Kind.ident, .kwIf, .kwThen, .kwElse, .kwLet, .kwIn, .kwDef],
        k ∉ [Kind.plus, .minus, .times, .divide, .modulo, .power, .compare] := by decide
    exact absurd hk (hdisjoint _ (Kind.ofWord_mem text))
  | symbol hs =>
    have hsymbols : ∀ p ∈ Kind.symbols, p.1 ∈ [Kind.plus, .minus, .times, .divide, .modulo, .power, .compare] →
        Lexeme.mk p.1 p.2 = ⟨(operatorOf ⟨⟨p.1, p.2⟩, 0⟩).kind, (operatorOf ⟨⟨p.1, p.2⟩, 0⟩).symbol⟩ := by decide
    exact hsymbols _ hs hk

end Lexeme.Fits

/-! ### Phrases -/

namespace Grammar

/-- The marks are read at some of the tokens, in their order. -/
inductive Heads : List Token → List (Nat × Mark) → Prop
  | nil : Heads [] []
  | head {ts : List Token} {ms : List (Nat × Mark)} (t : Token) {m : Mark} (h : m.Reads t.toLexeme)
      (rest : Heads ts ms) : Heads (t :: ts) ((t.pos, m) :: ms)
  | skip {ts : List Token} {ms : List (Nat × Mark)} (t : Token) (rest : Heads ts ms) : Heads (t :: ts) ms

namespace Heads
variable {ts ts' : List Token} {ms ms' : List (Nat × Mark)}

theorem append (h : Heads ts ms) (h' : Heads ts' ms') : Heads (ts ++ ts') (ms ++ ms') := by
  induction h with
  | nil => exact h'
  | head t hm _ ih => exact .head t hm ih
  | skip t _ ih => exact .skip t ih

theorem skip_all (h : Heads ts ms) : ∀ us : List Token, Heads (us ++ ts) ms
  | [] => h
  | u :: us => .skip u (h.skip_all us)

theorem snoc (h : Heads ts ms) (t : Token) : Heads (ts ++ [t]) ms := by
  have := h.append (.skip t .nil)
  rwa [List.append_nil] at this

theorem exists_of_mem (h : Heads ts ms) {m : Nat × Mark} (hm : m ∈ ms) :
    ∃ t ∈ ts, t.pos = m.1 ∧ m.2.Reads t.toLexeme := by
  induction h with
  | nil => cases hm
  | head t ht _ ih =>
    rcases List.mem_cons.1 hm with rfl | hm
    · exact ⟨t, List.mem_cons_self, rfl, ht⟩
    · obtain ⟨u, hu, hread⟩ := ih hm
      exact ⟨u, List.mem_cons_of_mem _ hu, hread⟩
  | skip t _ ih =>
    obtain ⟨u, hu, hread⟩ := ih hm
    exact ⟨u, List.mem_cons_of_mem _ hu, hread⟩

theorem sublist (h : Heads ts ms) : List.Sublist (ms.map Prod.fst) (ts.map Token.pos) := by
  induction h with
  | nil => exact .slnil
  | head t _ _ ih => exact ih.cons_cons _
  | skip t _ ih => exact ih.cons _

end Heads

/-- The tokens have the marks of what they denote. A tail adds its own to those of the operand on its left. -/
def HeadsMeaning : (c : Category) → List Token → c.Meaning → Prop
  | .level _, ts, e => Heads ts (Expr.marks e)
  | .sumTail, ts, g | .productTail, ts, g => ∀ ls x, Heads ls (Expr.marks x) → Heads (ls ++ ts) (Expr.marks (g x))
  | .arguments, ts, es => Heads ts (Expr.marksAll es)

section
variable {ks : List Kind}

theorem reads_ident (t : Terminal [.ident]) : (Mark.lexeme ⟨.ident, t.1.text⟩).Reads t.1.toLexeme := by
  show t.1.toLexeme = _
  exact congrArg (Lexeme.mk · t.1.text) t.kind_eq

theorem reads_keyword {k : Kind} (t : Terminal [k]) (h : t.1.toLexeme.Fits) {word : String}
    (hk : (word, k) ∈ Kind.keywords) : (Mark.lexeme ⟨k, word⟩).Reads t.1.toLexeme := by
  have htext : t.1.text = word := h.text_keyword (by rw [t.kind_eq]; exact hk)
  show t.1.toLexeme = _
  exact congrArg₂ Lexeme.mk t.kind_eq htext

theorem reads_operator (t : Terminal ks) (h : t.1.toLexeme.Fits)
    (hk : ∀ k ∈ ks, k ∈ [Kind.plus, .minus, .times, .divide, .modulo, .power, .compare]) :
    (Mark.lexeme ⟨(operatorOf t.1).kind, (operatorOf t.1).symbol⟩).Reads t.1.toLexeme :=
  h.eq_operator (hk _ t.2)

theorem reads_minus (t : Terminal [.minus]) (h : t.1.toLexeme.Fits) :
    (Mark.lexeme ⟨.minus, "-"⟩).Reads t.1.toLexeme := by
  have hop : operatorOf t.1 = .sub := by simp [operatorOf, Token.operator?]
  have := reads_operator t h (by decide)
  rwa [hop] at this

theorem reads_numeral (t : Terminal [.number]) (h : ∃ value, Numeral.decode t.1.text.toList = .ok value) :
    (Mark.numeral (valueOf t.1)).Reads t.1.toLexeme := by
  obtain ⟨value, hvalue⟩ := h
  refine ⟨t.kind_eq, ?_⟩
  rw [valueOf, hvalue]

end

theorem Phrase.heads {c : Category} (p : Phrase c) (hr : p.Readable) (h : ∀ t ∈ p.tokens, t.toLexeme.Fits) :
    HeadsMeaning c p.tokens p.meaning := by
  induction p with
  | letIn kwLet _ _ _ _ _ ihv ihb =>
    simp only [tokens, List.forall_mem_cons, List.forall_mem_append] at h
    obtain ⟨hlet, -, -, hv, -, hb⟩ := h
    exact .head _ (reads_keyword kwLet hlet (by decide))
      (.skip _ (.skip _ ((ihv hr.1 hv).append (.skip _ (ihb hr.2 hb)))))
  | ifElse kwIf _ _ _ kwElse _ ihc iht ihf =>
    simp only [tokens, List.forall_mem_cons, List.forall_mem_append] at h
    obtain ⟨hif, hc, -, ht, -, hf⟩ := h
    have hbranches := (iht hr.2.1 ht).append (.skip kwElse.1 (ihf hr.2.2 hf))
    exact .head _ (reads_keyword kwIf hif (by decide)) ((ihc hr.1 hc).append (.skip _ hbranches))
  | ofComparison _ ih | ofSum _ ih | ofUnary _ ih | ofPrimary _ ih => exact ih hr h
  | compare _ op _ ihl ihr | power _ op _ ihl ihr =>
    simp only [tokens, List.forall_mem_cons, List.forall_mem_append] at h
    exact (ihl hr.1 h.1).append (.head _ (reads_operator op h.2.1 (by decide)) (ihr hr.2 h.2.2))
  | sum _ _ ihf ihr | product _ _ ihf ihr =>
    simp only [tokens, List.forall_mem_append] at h
    exact ihr hr.2 h.2 _ _ (ihf hr.1 h.1)
  | sumNil | productNil =>
    intro ls x hx
    rw [tokens, List.append_nil]
    exact hx
  | sumCons op _ _ iho ihr | productCons op _ _ iho ihr =>
    simp only [tokens, List.forall_mem_cons, List.forall_mem_append] at h
    intro ls x hx
    -- the operation made here is the left operand of the rest of the tail
    have hleft := hx.append (.head _ (reads_operator op h.1 (by decide)) (iho hr.1 h.2.1))
    have := ihr hr.2 h.2.2 _ (.binary op.1.pos (operatorOf op.1) x _) hleft
    rwa [List.append_assoc] at this
  | neg minus _ ih =>
    simp only [tokens, List.forall_mem_cons] at h
    exact .head _ (reads_minus minus h.1) (ih hr h.2)
  | numeral t => exact .head _ (reads_numeral t hr) .nil
  | ident name => exact .head _ (reads_ident name) .nil
  | callNil name _ _ => exact .head _ (reads_ident name) (.skip _ (.skip _ .nil))
  | call name _ _ _ ih =>
    simp only [tokens, List.forall_mem_cons, List.forall_mem_append] at h
    exact .head _ (reads_ident name) (.skip _ ((ih hr h.2.2.1).snoc _))
  | group _ _ _ ih =>
    simp only [tokens, List.forall_mem_cons, List.forall_mem_append] at h
    exact .skip _ ((ih hr h.2.1).snoc _)
  | argLast e ih =>
    show Heads e.tokens (Expr.marks e.meaning ++ [])
    rw [List.append_nil]
    exact ih hr h
  | argCons _ _ _ ihe ihr =>
    simp only [tokens, List.forall_mem_cons, List.forall_mem_append] at h
    exact (ihe hr.1 h.1).append (.skip _ (ihr hr.2 h.2.2))

theorem Sentence.heads (s : Sentence) (hv : s.Valid) (h : ∀ t ∈ s.tokens, t.toLexeme.Fits) :
    Heads s.tokens s.statement.marks := by
  cases s with
  | eval e => exact e.heads hv h
  | define kwDef name openParen params closeParen assign body =>
    simp only [tokens, List.forall_mem_cons, List.forall_mem_append] at h
    obtain ⟨hdef, -, -, -, -, -, hb⟩ := h
    have hbody : Heads body.tokens (Expr.marks body.meaning) := body.heads hv.2 hb
    have hparams := Heads.skip_all (.skip closeParen.1 (.skip assign.1 hbody)) params.tokens
    exact .head _ (reads_keyword kwDef hdef (by decide)) (.skip _ (.skip _ hparams))

end Grammar

namespace Program
variable {lexing : Lexing} {src : Source} {s : Statement}

/-- At the place of each node the source has the token that the node was made at, and the places grow from left to
right. -/
theorem marks_of_mem (h : s ∈ (Program.parse lexing src).statements) :
    (∀ m ∈ s.marks, ∃ t : Token, .token t ∈ src.scan lexing ∧ t.pos = m.1 ∧ m.2.Reads t.toLexeme ∧
        src.text.slice t.pos t.stop = Bytes.ofString t.text) ∧
      (s.marks.map Prod.fst).Pairwise (· < ·) := by
  obtain ⟨ts, ⟨sentence, rfl, rfl, hv⟩, hsub⟩ := exists_sublist_of_mem h
  have hscan : ∀ t ∈ sentence.tokens, .token t ∈ src.scan lexing :=
    fun t ht => hsub.subset (List.mem_map_of_mem ht)
  have hitems : ∀ t ∈ sentence.tokens, .token t ∈ src.items :=
    fun t ht => Source.mem_items_of_mem_scan (hscan t ht)
  have hplain : ∀ t ∈ sentence.tokens, t.kind ≠ .eof := sentence.kind_ne_eof
  have hheads := sentence.heads hv fun t ht => (Source.fits_of_mem (hitems t ht)).resolve_left (hplain t ht)
  constructor
  · intro m hm
    obtain ⟨t, ht, hpos, hreads⟩ := hheads.exists_of_mem hm
    exact ⟨t, hscan t ht, hpos, hreads, Source.shown_of_mem (hitems t ht) (hplain t ht)⟩
  · have hplaces : List.Sublist (sentence.tokens.map Token.pos) (src.items.filterMap Item.pos?) := by
      have hpos : (sentence.tokens.map Item.token).filterMap Item.pos? = sentence.tokens.map Token.pos := by
        rw [List.filterMap_map]
        exact congrFun List.filterMap_eq_map _
      rw [← hpos]
      exact (hsub.trans (src.scan_sublist lexing)).filterMap Item.pos?
    exact (Source.ordered_items src).sublist (hheads.sublist.trans hplaces)

/-- The second statement begins after the two bytes of a no-break space. -/
theorem marks_of_mem_second :
    ∃ s, (Program.parse .strict (.ofString "1;\u00a0IF f(-1, (x)<=010) THEN -(y) ELSE 0")).statements =
        [.eval (.num 0 1), s] ∧
      s.marks.map Prod.fst = [4, 7, 9, 14, 16, 18, 28, 30, 38] ∧ (s.marks.map Prod.fst).Pairwise (· < ·) ∧
      ∀ m ∈ s.marks, ∃ t : Token,
        .token t ∈ (Source.ofString "1;\u00a0IF f(-1, (x)<=010) THEN -(y) ELSE 0").scan .strict ∧ t.pos = m.1 ∧
        m.2.Reads t.toLexeme ∧
        (Bytes.ofString "1;\u00a0IF f(-1, (x)<=010) THEN -(y) ELSE 0").slice t.pos t.stop = Bytes.ofString t.text := by
  obtain ⟨s, hs⟩ : ∃ s, s = Statement.eval (.cond 4 (.call 7 "f" [.num 9 (-1), .binary 16 .le (.var 14 "x") (.num 18 8)])
      (.neg 28 (.var 30 "y")) (.num 38 0)) := ⟨_, rfl⟩
  have hparse : (Program.parse .strict (.ofString "1;\u00a0IF f(-1, (x)<=010) THEN -(y) ELSE 0")).statements =
      [.eval (.num 0 1), s] := by
    rw [hs]
    cbv
  have hmem : s ∈ (Program.parse .strict (.ofString "1;\u00a0IF f(-1, (x)<=010) THEN -(y) ELSE 0")).statements := by
    rw [hparse]
    simp
  obtain ⟨hmarks, hordered⟩ := marks_of_mem hmem
  refine ⟨s, hparse, ?_, hordered, hmarks⟩
  rw [hs]
  rfl

end Program

end Octal
