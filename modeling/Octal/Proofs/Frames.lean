import Mathlib
import Octal.Scope

/-!
# Frames that share their outer frames

Frames are made and bound in any order. Which frame is inside which (`Frames.parent`) and what was bound last in a
frame (`Frames.latest`) can be told from the steps alone, and `Frames.Records` says that the frames agree with it. A
lookup then finds the nearest binding on the chain of its frame, and a binding is seen from the frames whose lookups
get as far as it, and from no other (`Frames.lookup_nearest`).
-/

namespace Octal.Frames

inductive Step where
  | new
  | enclose (i : Nat)
  | bind (i : Nat) (name : String) (value : Value)
deriving DecidableEq, Repr

def step (fs : Frames) : Step → Frames
  | .new => fs.new
  | .enclose i => fs.enclose i
  | .bind i name value => fs.bind i name value

/-- The frames after the steps of `past`, the last of which stands first. -/
def after : List Step → Frames
  | [] => empty
  | a :: past => (after past).step a

/-! ### What the steps tell -/

/-- How many frames were made. They are numbered in this order. -/
def created : List Step → Nat
  | [] => 0
  | .new :: past => created past + 1
  | .enclose _ :: past => created past + 1
  | .bind .. :: past => created past

/-- The frame that frame `i` was made in. -/
def parent : List Step → Nat → Option Nat
  | [], _ => none
  | .enclose j :: past, i => if i = created past then some j else parent past i
  | _ :: past, i => parent past i

/-- What was bound to `x` last in frame `i` itself. -/
def latest : List Step → Nat → String → Option Value
  | [], _, _ => none
  | .bind f name v :: past, i, x => if i = f ∧ x = name then some v else latest past i x
  | _ :: past, i, x => latest past i x

/-- The step is one on frames that are there, when `n` frames are. -/
def Step.Among (n : Nat) : Step → Prop
  | .new => True
  | .enclose i => i < n
  | .bind i .. => i < n

/-- Each step is one on frames that were made before. -/
def Valid : List Step → Prop
  | [] => True
  | a :: past => a.Among (created past) ∧ Valid past

/-- Frame `f` is on the chain from `g` outward. -/
def OnChain (past : List Step) (g f : Nat) : Prop := Relation.ReflTransGen (parent past · = some ·) g f

/-- Frame `f` is on the chain from `g` outward, and no frame on it that is nearer to `g` binds `x`. -/
structure Visible (past : List Step) (x : String) (g f : Nat) : Prop where
  onChain : OnChain past g f
  unbound : ∀ i, OnChain past g i → OnChain past i f → i ≠ f → latest past i x = none

section
variable {past : List Step} {g f i j : Nat} {x name : String} {v : Value}

theorem lt_of_parent (h : Valid past) (hij : parent past i = some j) : j < i ∧ i < created past := by
  induction past with
  | nil => cases hij
  | cons a past ih =>
    obtain ⟨ha, hpast⟩ := h
    cases a with
    | new => exact ⟨(ih hpast hij).1, Nat.lt_succ_of_lt (ih hpast hij).2⟩
    | enclose k =>
      rw [parent] at hij
      split at hij
      next hi =>
        cases hij
        exact hi ▸ ⟨ha, Nat.lt_succ_self _⟩
      next => exact ⟨(ih hpast hij).1, Nat.lt_succ_of_lt (ih hpast hij).2⟩
    | bind k name v => exact ih hpast hij

namespace OnChain

theorem le (h : Valid past) (hgf : OnChain past g f) : f ≤ g := by
  induction hgf with
  | refl => exact Nat.le_refl g
  | tail _ hparent ih => exact Nat.le_trans (Nat.le_of_lt (lt_of_parent h hparent).1) ih

theorem antisymm (h : Valid past) (hgf : OnChain past g f) (hfg : OnChain past f g) : g = f :=
  Nat.le_antisymm (hfg.le h) (hgf.le h)

/-- A frame is on the chain of no other frame with the same parent. -/
theorem eq_of_parent_eq (h : Valid past) (hparent : parent past g = parent past f) (hgf : OnChain past g f) :
    g = f := by
  rcases Relation.ReflTransGen.cases_head hgf with rfl | ⟨k, hk, hkf⟩
  · rfl
  · have hlt : k < f := (lt_of_parent h (hparent.symm.trans hk)).1
    exact absurd hlt (Nat.not_lt.2 (OnChain.le h hkf))

end OnChain

/-- A lookup that starts at `g` gets no farther than `g`, or it goes on from the parent of `g`. -/
theorem visible_iff (h : Valid past) :
    Visible past x g f ↔ f = g ∨ latest past g x = none ∧ ∃ j, parent past g = some j ∧ Visible past x j f := by
  constructor
  · rintro ⟨hgf, hnone⟩
    rcases Relation.ReflTransGen.cases_head hgf with rfl | ⟨j, hj, hjf⟩
    · exact .inl rfl
    · have hne : g ≠ f := Nat.ne_of_gt (Nat.lt_of_le_of_lt (OnChain.le h hjf) (lt_of_parent h hj).1)
      exact .inr ⟨hnone g .refl hgf hne, j, hj, hjf, fun i hji => hnone i (.head hj hji)⟩
  · rintro (rfl | ⟨hg, j, hj, hjf, hnone⟩)
    · exact ⟨.refl, fun i hfi hif hne => absurd (hif.antisymm h hfi) hne⟩
    · refine ⟨.head hj hjf, fun i hgi hif hne => ?_⟩
      rcases Relation.ReflTransGen.cases_head hgi with rfl | ⟨k, hk, hki⟩
      · exact hg
      · obtain rfl : j = k := Option.some.inj (hj.symm.trans hk)
        exact hnone i hki hif hne

theorem visible_self (h : Valid past) : Visible past x g g := (visible_iff h).2 (.inl rfl)

end

/-! ### What one step does -/

section
variable (fs : Frames) (i : Nat)

@[simp] theorem size_new : fs.new.size = fs.size + 1 := by
  simp [new, size]

@[simp] theorem size_enclose (j : Nat) : (fs.enclose j).size = fs.size + 1 := by
  simp [enclose, size]

@[simp] theorem size_bind (f : Nat) (name : String) (v : Value) : (fs.bind f name v).size = fs.size := by
  simp [bind, size]

@[simp] theorem chain_new : fs.new.chain i = fs.chain i := by
  unfold new chain
  grind

theorem chain_enclose (j : Nat) :
    (fs.enclose j).chain i = if i = fs.size then i :: fs.chain j else fs.chain i := by
  unfold enclose chain size
  grind

@[simp] theorem chain_bind (f : Nat) (name : String) (v : Value) : (fs.bind f name v).chain i = fs.chain i := by
  unfold bind chain
  grind

@[simp] theorem bindings_new : fs.new.bindings i = fs.bindings i := by
  unfold new bindings
  grind

@[simp] theorem bindings_enclose (j : Nat) : (fs.enclose j).bindings i = fs.bindings i := by
  unfold enclose bindings
  grind

theorem bindings_bind {f : Nat} (hf : f < fs.size) (name : String) (v : Value) :
    (fs.bind f name v).bindings i = if i = f then (name, v) :: fs.bindings i else fs.bindings i := by
  unfold bind bindings
  unfold size at hf
  grind

end

/-! ### Frames and their steps -/

/-- The frames are what the steps of `past` tell. -/
structure Records (fs : Frames) (past : List Step) : Prop where
  size : fs.size = created past
  outermost : ∀ {i}, parent past i = none → fs.chain i = [i]
  chain : ∀ {i j}, parent past i = some j → fs.chain i = i :: fs.chain j
  bindings : ∀ i x, (fs.bindings i).lookup x = latest past i x

namespace Records
variable {fs : Frames} {past : List Step}

theorem new (h : fs.Records past) : fs.new.Records (.new :: past) where
  size := by rw [size_new, h.size, created]
  outermost hi := by rw [chain_new]; exact h.outermost hi
  chain hij := by rw [chain_new, chain_new]; exact h.chain hij
  bindings i x := by rw [bindings_new]; exact h.bindings i x

theorem enclose (h : fs.Records past) (hpast : Valid past) {k : Nat} (hk : k < created past) :
    (fs.enclose k).Records (.enclose k :: past) where
  size := by rw [size_enclose, h.size, created]
  outermost {i} hi := by
    rw [parent] at hi
    rw [chain_enclose, h.size]
    split at hi
    next => cases hi
    next hne => rw [if_neg hne, h.outermost hi]
  chain {i j} hij := by
    rw [parent] at hij
    rw [chain_enclose, chain_enclose, h.size]
    split at hij
    next hi =>
      cases hij
      rw [if_pos hi, if_neg (Nat.ne_of_lt hk)]
    next hne =>
      obtain ⟨hji, hi⟩ := lt_of_parent hpast hij
      rw [if_neg hne, if_neg (Nat.ne_of_lt (Nat.lt_trans hji hi)), h.chain hij]
  bindings i x := by rw [bindings_enclose]; exact h.bindings i x

theorem bind (h : fs.Records past) {f : Nat} (hf : f < created past) (name : String) (v : Value) :
    (fs.bind f name v).Records (.bind f name v :: past) where
  size := by rw [size_bind, h.size, created]
  outermost hi := by rw [chain_bind]; exact h.outermost hi
  chain hij := by rw [chain_bind, chain_bind]; exact h.chain hij
  bindings i x := by
    rw [bindings_bind fs i (h.size ▸ hf), latest, ← h.bindings]
    split <;> grind [List.lookup]

end Records

theorem records_after {past : List Step} (h : Valid past) : (after past).Records past := by
  induction past with
  | nil => exact ⟨rfl, fun _ => rfl, nofun, fun _ _ => rfl⟩
  | cons a past ih =>
    obtain ⟨ha, hpast⟩ := h
    cases a with
    | new => exact (ih hpast).new
    | enclose k => exact (ih hpast).enclose hpast ha
    | bind f name v => exact (ih hpast).bind ha name v

/-! ### Lookups -/

namespace Records
variable {fs fs' : Frames} {past : List Step} {g f : Nat} {x name : String} {v : Value}

theorem lookup_bound (h : fs.Records past) (hx : latest past g x = some v) : fs.lookup g x = .ok v := by
  rw [← h.bindings] at hx
  rw [lookup, scope, Frames.chain, List.map_cons, Scope.lookup, hx]

theorem lookup_outermost (h : fs.Records past) (hx : latest past g x = none) (hg : parent past g = none) :
    fs.lookup g x = .error (.unboundVariable x) := by
  rw [← h.bindings] at hx
  rw [lookup, scope, h.outermost hg, List.map_singleton, Scope.lookup, hx]
  rfl

theorem lookup_parent (h : fs.Records past) (hx : latest past g x = none) {j : Nat} (hg : parent past g = some j) :
    fs.lookup g x = fs.lookup j x := by
  rw [← h.bindings] at hx
  rw [lookup, scope, h.chain hg, List.map_cons, Scope.lookup, hx]
  rfl

theorem lookup_eq_ok_iff (h : fs.Records past) (hpast : Valid past) :
    fs.lookup g x = .ok v ↔ ∃ f, Visible past x g f ∧ latest past f x = some v := by
  induction g using Nat.strong_induction_on with
  | h g ih =>
    cases hx : latest past g x with
    | some w =>
      rw [h.lookup_bound hx]
      constructor
      · rintro ⟨⟩
        exact ⟨g, visible_self hpast, hx⟩
      · rintro ⟨f, hf, hv⟩
        rcases (visible_iff hpast).1 hf with rfl | ⟨hnone, -⟩
        · rw [Option.some.inj (hx.symm.trans hv)]
        · cases hx.symm.trans hnone
    | none =>
      have hstep : (∃ f, Visible past x g f ∧ latest past f x = some v) ↔
          ∃ j, parent past g = some j ∧ ∃ f, Visible past x j f ∧ latest past f x = some v := by
        constructor
        · rintro ⟨f, hf, hv⟩
          rcases (visible_iff hpast).1 hf with rfl | ⟨-, j, hj, hjf⟩
          · cases hx.symm.trans hv
          · exact ⟨j, hj, f, hjf, hv⟩
        · rintro ⟨j, hj, f, hjf, hv⟩
          exact ⟨f, (visible_iff hpast).2 (.inr ⟨hx, j, hj, hjf⟩), hv⟩
      rw [hstep]
      cases hg : parent past g with
      | none =>
        rw [h.lookup_outermost hx hg]
        exact ⟨nofun, nofun⟩
      | some j =>
        rw [h.lookup_parent hx hg, ih j (lt_of_parent hpast hg).1]
        simp

theorem lookup_eq_error_iff (h : fs.Records past) (hpast : Valid past) :
    fs.lookup g x = .error (.unboundVariable x) ↔ ∀ f, OnChain past g f → latest past f x = none := by
  induction g using Nat.strong_induction_on with
  | h g ih =>
    cases hx : latest past g x with
    | some w =>
      rw [h.lookup_bound hx]
      exact ⟨nofun, fun hall => nomatch hx.symm.trans (hall g .refl)⟩
    | none =>
      cases hg : parent past g with
      | none =>
        rw [h.lookup_outermost hx hg]
        refine iff_of_true rfl fun f hgf => ?_
        rcases Relation.ReflTransGen.cases_head hgf with rfl | ⟨j, hj, -⟩
        · exact hx
        · cases hg.symm.trans hj
      | some j =>
        rw [h.lookup_parent hx hg, ih j (lt_of_parent hpast hg).1]
        constructor
        · intro hall f hgf
          rcases Relation.ReflTransGen.cases_head hgf with rfl | ⟨k, hk, hkf⟩
          · exact hx
          · obtain rfl : j = k := Option.some.inj (hg.symm.trans hk)
            exact hall f hkf
        · exact fun hall f hjf => hall f (.head hg hjf)

/-- A lookup depends on the frames that it gets to, and on no other. -/
theorem lookup_congr {past' : List Step} (h : fs.Records past) (h' : fs'.Records past') (hpast : Valid past)
    (hsame : ∀ i, Visible past x g i → latest past' i x = latest past i x ∧ parent past' i = parent past i) :
    fs'.lookup g x = fs.lookup g x := by
  induction g using Nat.strong_induction_on with
  | h g ih =>
    obtain ⟨hlatest, hparent⟩ := hsame g (visible_self hpast)
    cases hx : latest past g x with
    | some w => rw [h.lookup_bound hx, h'.lookup_bound (hlatest.trans hx)]
    | none =>
      cases hg : parent past g with
      | none => rw [h.lookup_outermost hx hg, h'.lookup_outermost (hlatest.trans hx) (hparent.trans hg)]
      | some j =>
        rw [h.lookup_parent hx hg, h'.lookup_parent (hlatest.trans hx) (hparent.trans hg)]
        refine ih j (lt_of_parent hpast hg).1 fun i hji => hsame i ?_
        exact (visible_iff hpast).2 (.inr ⟨hx, j, hg, hji⟩)

end Records

section
variable {past : List Step} (h : Valid past) {g f : Nat} {x name : String}
include h

theorem lookup_bind_of_visible (hf : f < created past) (hgf : Visible past name g f) (v : Value) :
    (after (.bind f name v :: past)).lookup g name = .ok v := by
  have hvalid : Valid (.bind f name v :: past) := ⟨hf, h⟩
  refine ((records_after hvalid).lookup_eq_ok_iff hvalid).2 ⟨f, ⟨hgf.onChain, fun i hgi hif hne => ?_⟩, ?_⟩
  · rw [latest, if_neg fun hi => hne hi.1]
    exact hgf.unbound i hgi hif hne
  · rw [latest, if_pos ⟨rfl, rfl⟩]

theorem lookup_bind_of_not_visible (hf : f < created past) (hgf : ¬ (x = name ∧ Visible past name g f)) (v : Value) :
    (after (.bind f name v :: past)).lookup g x = (after past).lookup g x := by
  have hvalid : Valid (.bind f name v :: past) := ⟨hf, h⟩
  refine (records_after h).lookup_congr (records_after hvalid) h fun i hgi => ⟨if_neg ?_, rfl⟩
  rintro ⟨rfl, rfl⟩
  exact hgf ⟨rfl, hgi⟩

/-- A new frame changes nothing for the frames that are there. -/
theorem lookup_of_not_bind {a : Step} (ha : a.Among (created past)) (hbind : ∀ f name v, a ≠ .bind f name v)
    (hg : g < created past) : (after (a :: past)).lookup g x = (after past).lookup g x := by
  have hvalid : Valid (a :: past) := ⟨ha, h⟩
  refine (records_after h).lookup_congr (records_after hvalid) h fun i hgi => ?_
  cases a with
  | new => exact ⟨rfl, rfl⟩
  | enclose j => exact ⟨rfl, if_neg (Nat.ne_of_lt (Nat.lt_of_le_of_lt (hgi.onChain.le h) hg))⟩
  | bind f name v => exact absurd rfl (hbind f name v)

end

/-- A lookup gives what was bound last in the nearest frame that binds the name, and fails if there is none. Binding
`name` in `f` is seen from the frames whose chain comes to `f` with no binding of `name` before it. All other lookups
are as they were: those of other names, those from the frames around `f` and those from frames beside it. -/
theorem lookup_nearest {past : List Step} (h : Valid past) (g : Nat) (x : String) :
    (∀ v, (after past).lookup g x = .ok v ↔ ∃ f, Visible past x g f ∧ latest past f x = some v) ∧
      ((after past).lookup g x = .error (.unboundVariable x) ↔ ∀ f, OnChain past g f → latest past f x = none) ∧
      (∀ f name v, f < created past →
        (x = name ∧ Visible past name g f → (after (.bind f name v :: past)).lookup g x = .ok v) ∧
        (¬ (x = name ∧ Visible past name g f) →
          (after (.bind f name v :: past)).lookup g x = (after past).lookup g x) ∧
        (g ≠ f → OnChain past f g ∨ parent past g = parent past f →
          (after (.bind f name v :: past)).lookup g x = (after past).lookup g x)) ∧
      ∀ a : Step, a.Among (created past) → (∀ f name v, a ≠ .bind f name v) → g < created past →
        (after (a :: past)).lookup g x = (after past).lookup g x := by
  have hrecords := records_after h
  refine ⟨fun v => hrecords.lookup_eq_ok_iff h, hrecords.lookup_eq_error_iff h, fun f name v hf => ⟨?_, ?_, ?_⟩,
    fun a ha hbind hg => lookup_of_not_bind h ha hbind hg⟩
  · rintro ⟨rfl, hgf⟩
    exact lookup_bind_of_visible h hf hgf v
  · exact fun hgf => lookup_bind_of_not_visible h hf hgf v
  · intro hne hbeside
    refine lookup_bind_of_not_visible h hf (fun ⟨_, hgf⟩ => hne ?_) v
    rcases hbeside with hfg | hparent
    · exact hgf.onChain.antisymm h hfg
    · exact hgf.onChain.eq_of_parent_eq h hparent

/-- Two frames in one, the first with a binding of its own. A later binding in the outer frame is seen from the
second. -/
theorem lookup_nearest_shared_parent :
    let past : List Step := [.bind 1 "n" 6, .enclose 0, .enclose 0, .bind 0 "n" 5, .new]
    Valid past ∧ Visible past "n" 2 0 ∧ (after past).lookup 2 "n" = .ok 5 ∧
      (after (.bind 0 "n" 7 :: past)).lookup 2 "n" = .ok 7 ∧
      (after (.bind 0 "n" 7 :: past)).lookup 1 "n" = .ok 6 := by
  intro past
  have hvalid : Valid past := by simp [past, Valid, Step.Among, created]
  have hseen : Visible past "n" 2 0 := (visible_iff hvalid).2 (.inr ⟨by decide, 0, by decide, visible_self hvalid⟩)
  have hhidden : ¬ Visible past "n" 1 0 := by
    rw [visible_iff hvalid]
    rintro (h | ⟨h, -⟩)
    · cases h
    · exact absurd h (by decide)
  obtain ⟨hbefore, -, hbind, -⟩ := lookup_nearest hvalid 2 "n"
  obtain ⟨hinner, -, hbind', -⟩ := lookup_nearest hvalid 1 "n"
  refine ⟨hvalid, hseen, (hbefore 5).2 ⟨0, hseen, by decide⟩, (hbind 0 "n" 7 (by decide)).1 ⟨rfl, hseen⟩, ?_⟩
  rw [(hbind' 0 "n" 7 (by decide)).2.1 fun h => hhidden h.2]
  exact (hinner 6).2 ⟨1, visible_self hvalid, by decide⟩

end Octal.Frames
