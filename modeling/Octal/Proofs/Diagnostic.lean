import Mathlib
import Octal.Diagnostic
import Octal.Proofs.Scan.Order

/-!
# The place of a problem

Three walks over a source have to agree on where a problem is: the scanner counts bytes, a column counts runes, and the
lines that are shown are cut at bytes. They do since a newline is always a rune of its own (`Rune.count_newline`),
whatever invalid bytes there are around it. So the line of a place is one of the lines that the text is cut into, for
every offset (`Bytes.placeAt_bounds`), and at an offset where the scanner found something it is the line around that
offset, with as many runes before it as the column says (`Bytes.Spot`).
-/

namespace Octal

/-! ### Lines -/

namespace Bytes
variable {a b line : Bytes} {more : List Bytes}

theorem exists_lines (text : Bytes) : ∃ line more, text.lines = line :: more := by
  cases text with
  | nil => exact ⟨[], [], rfl⟩
  | cons b rest =>
    unfold lines
    split
    · exact ⟨_, _, rfl⟩
    · split <;> exact ⟨_, _, rfl⟩

theorem lines_append_newline (a b : Bytes) : (a ++ newline :: b).lines = a.lines ++ b.lines := by
  induction a with
  | nil => exact if_pos rfl
  | cons x a ih =>
    obtain ⟨line, more, hlines⟩ := exists_lines a
    rw [List.cons_append, lines, lines, ih, hlines]
    split <;> rfl

theorem lines_append (ha : newline ∉ a) (hb : b.lines = line :: more) : (a ++ b).lines = (a ++ line) :: more := by
  induction a with
  | nil => exact hb
  | cons x a ih =>
    rw [List.mem_cons, not_or] at ha
    rw [List.cons_append, lines, if_neg (Ne.symm ha.1), ih ha.2]
    rfl

theorem length_lines (text : Bytes) : text.lines.length = 1 + text.count newline := by
  induction text with
  | nil => rfl
  | cons b rest ih =>
    obtain ⟨line, more, hlines⟩ := exists_lines rest
    rw [hlines] at ih
    rw [lines, hlines]
    split
    · next hb =>
      rw [hb, List.count_cons_self, List.length_cons, ih]
      omega
    · next hb => rwa [List.count_cons_of_ne hb]

/-- The lines, each with a newline, are the text with one. -/
theorem flatMap_lines (text : Bytes) : text.lines.flatMap (· ++ [newline]) = text ++ [newline] := by
  induction text with
  | nil => rfl
  | cons b rest ih =>
    obtain ⟨line, more, hlines⟩ := exists_lines rest
    rw [hlines] at ih
    rw [lines, hlines]
    split
    · next hb =>
      rw [List.flatMap_cons, ih, hb]
      rfl
    · rw [List.flatMap_cons] at ih ⊢
      rw [List.cons_append, List.cons_append, ih, List.cons_append]

theorem newline_not_mem_of_mem_lines {text : Bytes} (h : line ∈ text.lines) : newline ∉ line := by
  induction text generalizing line with
  | nil =>
    cases List.mem_singleton.1 h
    exact List.not_mem_nil
  | cons b rest ih =>
    obtain ⟨first, more, hlines⟩ := exists_lines rest
    rw [lines, hlines] at h
    rw [hlines] at ih
    split at h
    · rcases List.mem_cons.1 h with rfl | h
      · exact List.not_mem_nil
      · exact ih h
    · next hb =>
      rcases List.mem_cons.1 h with rfl | h
      · rw [List.mem_cons, not_or]
        exact ⟨Ne.symm hb, ih List.mem_cons_self⟩
      · exact ih (List.mem_cons_of_mem _ h)

end Bytes

/-! ### Newlines among runes -/

namespace Rune
variable {r : Rune} {text : Bytes}

/-- A byte of ASCII is no part of a longer rune. -/
theorem eq_of_mem_bytes (h : r ∈ decode text) {x : UInt8} (hx : x ∈ r.bytes) (hlt : x.toNat < 0x80) :
    r = ⟨Char.ofNat x.toNat, [x]⟩ := by
  obtain ⟨b, rest, rfl⟩ := exists_first_of_mem_decodeFrom h
  obtain ⟨tail, hbytes, more, hrest⟩ := first_bytes b rest
  rw [hbytes] at hx
  rcases List.mem_cons.1 hx with rfl | hx
  · exact first_one rest hlt
  · exfalso
    obtain ⟨front, back, rfl⟩ := List.append_of_mem hx
    -- the rune would have to reach beyond `x`, but it is the one that `front` alone makes
    rw [← hrest, List.append_assoc, List.cons_append, first_append_ascii hlt] at hbytes
    obtain ⟨tail', hbytes', hprefix⟩ := first_bytes b front
    have hlength := congrArg List.length (hbytes'.symm.trans hbytes)
    have hle := hprefix.length_le
    simp only [List.length_cons, List.length_append] at hlength
    omega

theorem count_newline (h : r ∈ decode text) : r.bytes.count newline = if r.char = '\n' then 1 else 0 := by
  split
  · next hc =>
    rw [bytes_of_mem_decode h (by rw [hc]; decide), hc]
    decide
  · next hc =>
    refine List.count_eq_zero.2 fun hmem => hc ?_
    rw [eq_of_mem_bytes h hmem (by decide)]
    decide

end Rune

namespace Place
variable {text : Bytes} {p : Place} {runes before : List Rune}

/-- The place after the runes. -/
def past (p : Place) (runes : List Rune) : Place := runes.foldl (fun q r => q.next r.char) p

theorem past_append (p : Place) (runes runes' : List Rune) : p.past (runes ++ runes') = (p.past runes).past runes' :=
  List.foldl_append

theorem line_past (h : ∀ r ∈ runes, r ∈ Rune.decode text) :
    (p.past runes).line = p.line + (Rune.encode runes).count newline := by
  induction runes generalizing p with
  | nil => rfl
  | cons r runes ih =>
    obtain ⟨hr, h⟩ := List.forall_mem_cons.1 h
    have hnext : (p.next r.char).line = p.line + r.bytes.count newline := by
      rw [Rune.count_newline hr, next]
      split <;> rfl
    show ((p.next r.char).past runes).line = _
    rw [ih h, hnext, Rune.encode, Rune.encode, List.flatMap_cons, List.count_append, Nat.add_assoc]

theorem col_past_pos (hp : 1 ≤ p.col) (runes : List Rune) : 1 ≤ (p.past runes).col := by
  induction runes generalizing p with
  | nil => exact hp
  | cons r runes ih =>
    refine ih ?_
    show 1 ≤ (p.next r.char).col
    unfold next
    split
    · exact Nat.le_refl 1
    · exact Nat.le_add_left _ _

theorem past_of_plain (h : ∀ r ∈ runes, r.char ≠ '\n') : p.past runes = ⟨p.line, p.col + runes.length⟩ := by
  induction runes generalizing p with
  | nil => rfl
  | cons r runes ih =>
    obtain ⟨hr, h⟩ := List.forall_mem_cons.1 h
    show (p.next r.char).past runes = _
    rw [ih h, next, if_neg hr, List.length_cons, Nat.add_assoc, Nat.add_comm 1]

/-- Whatever the offset is, the walk stops between two runes. -/
theorem exists_past (p : Place) (offset : Nat) (runes : List Rune) :
    ∃ before after, runes = before ++ after ∧ p.advance offset runes = p.past before := by
  induction runes generalizing p offset with
  | nil => exact ⟨[], [], rfl, rfl⟩
  | cons r runes ih =>
    rw [advance]
    split
    · exact ⟨[], r :: runes, rfl, rfl⟩
    · obtain ⟨before, after, hrunes, hplace⟩ := ih (p.next r.char) (offset - r.width)
      exact ⟨r :: before, after, by rw [hrunes, List.cons_append], hplace⟩

theorem advance_length (hw : ∀ r ∈ before, 0 < r.width) (after : List Rune) :
    p.advance (Rune.encode before).length (before ++ after) = p.past before := by
  induction before generalizing p with
  | nil =>
    cases after with
    | nil => rfl
    | cons r after => exact if_pos rfl
  | cons r before ih =>
    obtain ⟨hr, hw⟩ := List.forall_mem_cons.1 hw
    have hlength : (Rune.encode (r :: before)).length = r.width + (Rune.encode before).length := by
      rw [Rune.encode, List.flatMap_cons, List.length_append]
      rfl
    rw [List.cons_append, advance, if_neg (by omega), hlength, Nat.add_sub_cancel_left, ih hw]
    rfl

end Place

/-- Up to the last newline and after it. -/
theorem Rune.exists_line (runes : List Rune) : ∃ head line, runes = head ++ line ∧ (∀ r ∈ line, r.char ≠ '\n') ∧
    (head = [] ∨ ∃ init r, head = init ++ [r] ∧ r.char = '\n') := by
  induction runes using List.reverseRecOn with
  | nil => exact ⟨[], [], rfl, List.forall_mem_nil _, .inl rfl⟩
  | append_singleton runes r ih =>
    by_cases hr : r.char = '\n'
    · exact ⟨runes ++ [r], [], (List.append_nil _).symm, List.forall_mem_nil _, .inr ⟨runes, r, rfl, hr⟩⟩
    · obtain ⟨head, line, rfl, hplain, hhead⟩ := ih
      refine ⟨head, line ++ [r], List.append_assoc _ _ _, ?_, hhead⟩
      exact List.forall_mem_append.2 ⟨hplain, List.forall_mem_singleton.2 hr⟩

/-! ### Places in a text -/

/-- The offset `pos` of a text in its lines. -/
structure Bytes.Spot (text : Bytes) (pos : Nat) where
  above : List Bytes
  line : Bytes
  below : List Bytes
  lines_eq : text.lines = above ++ line :: below
  text_eq : text = above.flatMap (· ++ [newline]) ++ line ++ below.flatMap (newline :: ·)
  plain : ∀ l ∈ above ++ line :: below, newline ∉ l
  /-- The runes before the line. -/
  head : List Rune
  /-- The runes of the line before the offset. -/
  runes : List Rune
  rest : List Rune
  decode_eq : Rune.decode text = head ++ runes ++ rest
  head_eq : Rune.encode head = above.flatMap (· ++ [newline])
  runes_prefix : Rune.encode runes <+: line
  pos_eq : (Rune.encode (head ++ runes)).length = pos

namespace Bytes

theorem flatMap_newline (ls : List Bytes) :
    [newline] ++ ls.flatMap (· ++ [newline]) = ls.flatMap (newline :: ·) ++ [newline] := by
  induction ls with
  | nil => rfl
  | cons l ls ih =>
    rw [List.flatMap_cons, List.flatMap_cons, List.append_assoc l, ih]
    simp

theorem eq_of_lines {text line : Bytes} {above below : List Bytes} (h : text.lines = above ++ line :: below) :
    text = above.flatMap (· ++ [newline]) ++ line ++ below.flatMap (newline :: ·) := by
  have hall := flatMap_lines text
  rw [h, List.flatMap_append, List.flatMap_cons, List.append_assoc line, flatMap_newline, ← List.append_assoc,
    ← List.append_assoc] at hall
  exact (List.append_cancel_right hall).symm

theorem count_newline {ls : List Bytes} (h : ∀ l ∈ ls, newline ∉ l) :
    (ls.flatMap (· ++ [newline])).count newline = ls.length := by
  induction ls with
  | nil => rfl
  | cons l ls ih =>
    obtain ⟨hl, h⟩ := List.forall_mem_cons.1 h
    rw [List.flatMap_cons, List.count_append, List.count_append, List.count_eq_zero.2 hl, ih h, List.length_cons]
    simp [Nat.add_comm]

variable {text : Bytes} {head runes rest : List Rune}

theorem exists_above (hd : Rune.decode text = head ++ rest)
    (hhead : head = [] ∨ ∃ init r, head = init ++ [r] ∧ r.char = '\n') :
    ∃ above, text.lines = above ++ (Rune.encode rest).lines ∧ Rune.encode head = above.flatMap (· ++ [newline]) := by
  have htext := Rune.encode_decode text
  rw [hd] at htext
  rcases hhead with rfl | ⟨init, r, rfl, hr⟩
  · exact ⟨[], congrArg lines htext.symm, rfl⟩
  · have hmem : r ∈ Rune.decode text := by simp [hd]
    have hbytes : r.bytes = [newline] := by
      rw [Rune.bytes_of_mem_decode hmem (by rw [hr]; decide), hr]
      decide
    refine ⟨(Rune.encode init).lines, ?_, ?_⟩
    · rw [← lines_append_newline, ← htext]
      simp [Rune.encode, hbytes]
    · rw [flatMap_lines]
      simp [Rune.encode, hbytes]

theorem newline_not_mem_encode (hmem : ∀ r ∈ runes, r ∈ Rune.decode text) (hplain : ∀ r ∈ runes, r.char ≠ '\n') :
    newline ∉ Rune.encode runes := by
  intro h
  obtain ⟨r, hr, hbytes⟩ := List.mem_flatMap.1 h
  have hcount := Rune.count_newline (hmem r hr)
  rw [if_neg (hplain r hr), List.count_eq_zero] at hcount
  exact hcount hbytes

/-- Where a rune begins or the text ends, the place is that of the offset in its lines. -/
theorem exists_spot {before : List Rune} (hd : Rune.decode text = before ++ rest) :
    ∃ s : text.Spot (Rune.encode before).length,
      text.placeAt (Rune.encode before).length = ⟨1 + s.above.length, 1 + s.runes.length⟩ := by
  have hmem : ∀ r ∈ before, r ∈ Rune.decode text := fun r hr => by simp [hd, hr]
  have hplace : text.placeAt (Rune.encode before).length = Place.start.past before := by
    rw [placeAt, hd, Place.advance_length fun r hr => Rune.width_pos_of_mem_decode (hmem r hr)]
  obtain ⟨head, runes, rfl, hplain, hhead⟩ := Rune.exists_line before
  rw [List.append_assoc] at hd
  obtain ⟨above, habove, hbytes⟩ := exists_above hd hhead
  obtain ⟨line, below, hline⟩ := exists_lines (Rune.encode rest)
  have hrunes : newline ∉ Rune.encode runes :=
    newline_not_mem_encode (fun r hr => hmem r (List.mem_append_right _ hr)) hplain
  have hlines : text.lines = above ++ (Rune.encode runes ++ line) :: below := by
    rw [habove, ← lines_append hrunes hline, Scan.State.encode_append]
  have hnl : ∀ l ∈ above ++ (Rune.encode runes ++ line) :: below, newline ∉ l := by
    rw [← hlines]
    exact fun l => newline_not_mem_of_mem_lines
  refine ⟨⟨above, _, below, hlines, eq_of_lines hlines, hnl, head, runes, rest, by rw [hd, List.append_assoc], hbytes,
    List.prefix_append _ _, rfl⟩, ?_⟩
  have hline : (Place.start.past head).line = 1 + above.length := by
    rw [Place.line_past fun r hr => hmem r (List.mem_append_left _ hr), hbytes,
      count_newline fun l hl => hnl l (List.mem_append_left _ hl)]
    rfl
  have hcol : (Place.start.past head).col = 1 := by
    rcases hhead with rfl | ⟨init, r, rfl, hr⟩
    · rfl
    · rw [Place.past_append]
      simp [Place.past, Place.next, hr]
  rw [hplace, Place.past_append, Place.past_of_plain hplain, hline, hcol]

theorem Spot.length_above {pos : Nat} (s : text.Spot pos) : s.above.length = (text.take pos).count newline := by
  have htext : text = Rune.encode (s.head ++ s.runes) ++ Rune.encode s.rest := by
    rw [← Scan.State.encode_append, ← s.decode_eq, Rune.encode_decode]
  have hrunes : newline ∉ Rune.encode s.runes := fun h => s.plain s.line (by simp) (s.runes_prefix.subset h)
  have htake : text.take pos = Rune.encode s.head ++ Rune.encode s.runes := by
    rw [← Scan.State.encode_append]
    exact (congrArg (List.take pos) htext).trans (List.take_left' s.pos_eq)
  rw [htake, List.count_append, s.head_eq, count_newline fun l hl => s.plain l (List.mem_append_left _ hl),
    List.count_eq_zero.2 hrunes, Nat.add_zero]

/-- The line that the place of an offset names is there, and so is the column before it. -/
theorem placeAt_bounds (text : Bytes) (offset : Nat) :
    1 ≤ (text.placeAt offset).line ∧ (text.placeAt offset).line ≤ text.lines.length ∧ 1 ≤ (text.placeAt offset).col := by
  obtain ⟨before, after, hd, hplace⟩ := Place.exists_past .start offset (Rune.decode text)
  have hmem : ∀ r ∈ before, r ∈ Rune.decode text := fun r hr => by simp [hd, hr]
  have hline : (Place.start.past before).line = 1 + (Rune.encode before).count newline := Place.line_past hmem
  have hcount : text.count newline = (Rune.encode before).count newline + (Rune.encode after).count newline := by
    rw [← List.count_append, ← Scan.State.encode_append, ← hd, Rune.encode_decode]
  rw [placeAt, hplace]
  refine ⟨?_, ?_, Place.col_past_pos (Nat.le_refl 1) before⟩
  · omega
  · rw [length_lines]
    omega

theorem exists_boundary {item : Item} {pos : Nat} (h : item ∈ (Source.complete text).items)
    (hpos : item.pos? = some pos) :
    ∃ before rest, Rune.decode text = before ++ rest ∧ (Rune.encode before).length = pos := by
  have hstands := Source.stands_of_mem h
  have of_hasAt {cs : List Char} (hat : text.HasAt pos cs) :
      ∃ before rest, Rune.decode text = before ++ rest ∧ (Rune.encode before).length = pos := by
    obtain ⟨before, runes, after, hd, hlength, -⟩ := hat
    exact ⟨before, runes ++ after, by rw [hd, List.append_assoc], hlength⟩
  cases item with
  | token t =>
    cases hpos
    rcases hstands with ⟨-, heof⟩ | ⟨cs, -, hat⟩
    · exact ⟨Rune.decode text, [], (List.append_nil _).symm, by rw [Rune.encode_decode, heof]⟩
    · exact of_hasAt hat
  | stray pos c =>
    cases hpos
    exact of_hasAt hstands
  | failed cause => cases hpos

end Bytes

/-! ### What is shown -/

namespace Diagnostic

/-- The line at an index, which has to be one of a line. -/
def lineAt? (lines : List Bytes) (i : Int) : Option Bytes := if 0 ≤ i then lines[i.toNat]? else none

/-- `n` spaces; there are no `-1` spaces. -/
def blanks? (n : Int) : Option String := if 0 ≤ n then some (String.ofList (List.replicate n.toNat ' ')) else none

/-- Line `n` with its number, if there is one. -/
def numbered? (lines : List Bytes) (n : Int) : Option Bytes := (lineAt? lines (n - 1)).map (numbered n.toNat)

/-- Line `n` where it is asked for. -/
def neighbour? (lines : List Bytes) (n : Int) (asked : Bool) : Option Bytes :=
  if asked then numbered? lines n else some []

/-- The snippet, if every line it asks for is there and the caret is not before the first column. -/
def snippet? (lines : List Bytes) (line col : Int) : Option Bytes := do
  let above ← neighbour? lines (line - 1) (1 < line)
  let shown ← numbered? lines line
  let blanks ← blanks? (col - 1)
  let below ← neighbour? lines (line + 1) (line < lines.length)
  return above ++ shown ++ Bytes.ofString ("     | " ++ blanks ++ "^\n") ++ below

/-- A failure in evaluating `src`, if its snippet can be made. -/
def render? (src : Bytes) (f : Failure) : Option Bytes :=
  match f.cause with
  | .malformed (some offset) problem =>
    let place := src.placeAt offset
    (snippet? src.lines place.line place.col).map
      (Bytes.ofString ("Error at " ++ heading src.lines place ++ ": " ++ problem.message ++ "\n\n") ++ ·)
  | _ => some (plain f.message)

theorem numbered?_eq {lines : List Bytes} {i : Nat} {n : Int} (hn : n = i + 1) (h : i < lines.length) :
    numbered? lines n = some (context lines (i + 1)) := by
  have hindex : n - 1 = i := by omega
  have hnumber : n.toNat = i + 1 := by omega
  rw [numbered?, hindex, hnumber, lineAt?, if_pos (Int.natCast_nonneg i), Int.toNat_natCast, context,
    List.getElem?_eq_getElem h]
  rfl

theorem snippet?_eq {lines : List Bytes} {p : Place} (hline : 1 ≤ p.line) (hle : p.line ≤ lines.length)
    (hcol : 1 ≤ p.col) : snippet? lines p.line p.col = some (snippet lines p) := by
  obtain ⟨line, col⟩ := p
  obtain ⟨i, rfl⟩ : ∃ i, line = i + 1 := ⟨line - 1, (Nat.sub_add_cancel hline).symm⟩
  obtain ⟨j, rfl⟩ : ∃ j, col = j + 1 := ⟨col - 1, (Nat.sub_add_cancel hcol).symm⟩
  change i + 1 ≤ lines.length at hle
  have habove : neighbour? lines ((i + 1 : Nat) - 1) (1 < ((i + 1 : Nat) : Int)) = some (context lines i) := by
    cases i with
    | zero => rfl
    | succ i => rw [neighbour?, if_pos (by simp), numbered?_eq (i := i) (by omega) (by omega)]
  have hshown : numbered? lines (i + 1 : Nat) = some (context lines (i + 1)) := numbered?_eq (by omega) (by omega)
  have hblanks : blanks? ((j + 1 : Nat) - 1) = some (String.ofList (List.replicate j ' ')) := by
    have hj : ((j + 1 : Nat) : Int) - 1 = j := by omega
    rw [hj, blanks?, if_pos (Int.natCast_nonneg j), Int.toNat_natCast]
  have hbelow : neighbour? lines ((i + 1 : Nat) + 1) (((i + 1 : Nat) : Int) < lines.length) =
      some (context lines (i + 2)) := by
    rw [neighbour?]
    split
    · next h => exact numbered?_eq (i := i + 1) (by omega) (by simp at h; omega)
    · next h =>
      rw [context, List.getElem?_eq_none (by simp at h; omega)]
      rfl
  rw [snippet?, habove, hshown, hblanks, hbelow]
  rfl

/-- No line is asked for that is not there, whatever the offset of the problem is. -/
theorem render?_eq (src : Bytes) (f : Failure) : render? src f = some (render src f) := by
  obtain ⟨contexts, cause⟩ := f
  cases cause with
  | malformed pos problem =>
    cases pos with
    | none => rfl
    | some offset =>
      obtain ⟨hline, hle, hcol⟩ := src.placeAt_bounds offset
      simp only [render?, snippet?_eq hline hle hcol, Option.map_some]
      rfl
  | _ => rfl

theorem context_append (above : List Bytes) (line : Bytes) (below : List Bytes) :
    context (above ++ line :: below) above.length = (above.getLast?.map (numbered above.length)).getD [] ∧
    context (above ++ line :: below) (above.length + 1) = numbered (above.length + 1) line ∧
    context (above ++ line :: below) (above.length + 2) = (below.head?.map (numbered (above.length + 2))).getD [] := by
  refine ⟨?_, ?_, ?_⟩
  · induction above using List.reverseRecOn with
    | nil => rfl
    | append_singleton above l => simp [context]
  · simp [context]
  · rw [context, List.getElem?_append_right (by omega)]
    cases below <;> simp

/-- Every failure can be shown. Where the scanner found something, the place of the offset is that in the lines of the
source, and what is shown is the line, its neighbours, and a caret after as many spaces as runes come before. -/
theorem render_spot (src : Bytes) :
    (∀ f : Failure, render? src f = some (render src f)) ∧
    ∀ item ∈ (Source.complete src).items, ∀ pos, item.pos? = some pos → ∃ s : src.Spot pos,
      src.placeAt pos = ⟨1 + (src.take pos).count newline, 1 + s.runes.length⟩ ∧
      s.above.length = (src.take pos).count newline ∧
      ∀ contexts problem, render src ⟨contexts, .malformed (some pos) problem⟩ =
        Bytes.ofString ("Error at " ++ heading src.lines ⟨1 + s.above.length, 1 + s.runes.length⟩ ++ ": " ++
          problem.message ++ "\n\n") ++
        ((s.above.getLast?.map (numbered s.above.length)).getD [] ++
          numbered (s.above.length + 1) s.line ++
          Bytes.ofString ("     | " ++ String.ofList (List.replicate s.runes.length ' ') ++ "^\n") ++
          (s.below.head?.map (numbered (s.above.length + 2))).getD []) := by
  refine ⟨render?_eq src, ?_⟩
  intro item hitem pos hpos
  obtain ⟨before, rest, hd, rfl⟩ := Bytes.exists_boundary hitem hpos
  obtain ⟨s, hplace⟩ := Bytes.exists_spot hd
  refine ⟨s, by rw [hplace, s.length_above], s.length_above, ?_⟩
  intro contexts problem
  obtain ⟨habove, hline, hbelow⟩ := context_append s.above s.line s.below
  show renderAt src _ problem = _
  rw [renderAt, hplace]
  simp only [snippet, s.lines_eq, Nat.add_comm 1, Nat.add_sub_cancel, habove, hline, hbelow]

/-- Each of two invalid bytes takes a column. -/
theorem render_spot_invalid :
    ∃ s : Bytes.Spot [0xCE, 0x0A, 0x80, 0xE2, 0x24] 4, s.above.length = 1 ∧ s.runes.length = 2 := by
  obtain ⟨s, hplace, hcount, -⟩ := (render_spot [0xCE, 0x0A, 0x80, 0xE2, 0x24]).2 (.stray 4 '$') (by decide) 4 rfl
  have hcol : (Bytes.placeAt [0xCE, 0x0A, 0x80, 0xE2, 0x24] 4).col = 3 := by decide
  rw [hplace] at hcol
  exact ⟨s, hcount, Nat.add_left_cancel (n := 1) hcol⟩

end Diagnostic

end Octal
