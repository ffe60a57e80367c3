import Mathlib
import Octal.Log

/-!
# Filters never stack

A handler is derived from another by attributes, by a group, or by a new filter in front of it. However many such steps
follow one another, a filter in front of a text handler stays one filter in front of a text handler
(`Handler.derive_filter`). Its level is that of the last wrapping, and the text handler behind it has collected what it
would have collected alone (`Handler.derive_text`). So a record is written as it is without filters, or not at all
(`Handler.derive_wrap_text`).
-/

namespace Octal.Log.Handler

inductive Step where
  | attributes (as : List Attribute)
  | group (name : String)
  | wrap (level : Level)
deriving DecidableEq, Repr

def step (h : Handler) : Step → Handler
  | .attributes as => h.withAttributes as
  | .group name => h.withGroup name
  | .wrap level => h.wrap level

def derive (h : Handler) (steps : List Step) : Handler := steps.foldl step h

theorem derive_nil (h : Handler) : h.derive [] = h := rfl

theorem derive_cons (h : Handler) (a : Step) (steps : List Step) : h.derive (a :: steps) = (h.step a).derive steps := rfl

/-! ### What the steps tell -/

namespace Step

/-- The level of a wrapping. -/
def level? : Step → Option Level
  | wrap level => some level
  | _ => none

/-- The attributes of a step that is taken inside `groups`. -/
def placed (groups : List String) : Step → List Placed
  | attributes as => as.map (Placed.place groups)
  | _ => []

/-- The group that a step opens, if it has a name. -/
def opened : Step → List String
  | group name => if name.isEmpty then [] else [name]
  | _ => []

theorem eq_wrap_of_level? {a : Step} {level : Level} (ha : a.level? = some level) : a = wrap level := by
  cases a with
  | wrap l => exact congrArg wrap (Option.some.inj ha)
  | _ => cases ha

end Step

/-- The level of the last wrapping, where `level` is that of the first. -/
def lastLevel (level : Level) (steps : List Step) : Level := (steps.filterMap Step.level?).getLastD level

/-- The steps without the wrappings. -/
def collecting (steps : List Step) : List Step := steps.filter (·.level?.isNone)

def opened (steps : List Step) : List String := steps.flatMap Step.opened

/-- The attributes of the steps in order, each in `groups` and the groups opened before it. -/
def placed (groups : List String) : List Step → List Placed
  | [] => []
  | a :: steps => a.placed groups ++ placed (groups ++ a.opened) steps

theorem lastLevel_cons (level : Level) (a : Step) (steps : List Step) :
    lastLevel level (a :: steps) = lastLevel (a.level?.getD level) steps := by
  cases a with
  | wrap l => exact List.getLastD_cons ..
  | _ => rfl

theorem collecting_cons_of_none {a : Step} (ha : a.level? = none) (steps : List Step) :
    collecting (a :: steps) = a :: collecting steps :=
  List.filter_cons_of_pos (by rw [ha]; rfl)

theorem opened_cons (a : Step) (steps : List Step) : opened (a :: steps) = a.opened ++ opened steps := List.flatMap_cons

section
variable {level minimum : Level} {attributes : List Placed} {groups : List String}

/-! ### One step -/

theorem step_text {a : Step} (ha : a.level? = none) :
    (text minimum attributes groups).step a = text minimum (attributes ++ a.placed groups) (groups ++ a.opened) := by
  cases a with
  | attributes as => simp only [step, withAttributes, Step.placed, Step.opened, List.append_nil]
  | group name =>
    simp only [step, withGroup, Step.placed, Step.opened, List.append_nil]
    split
    · rw [List.append_nil]
    · rfl
  | wrap l => cases ha

/-- A filter passes on what is collected, and is put again in front of the handler that comes of it. -/
theorem step_filter_of_none {a : Step} (ha : a.level? = none) (h : Handler) :
    (filter level h).step a = (h.step a).wrap level := by
  cases a with
  | wrap l => cases ha
  | _ => rfl

theorem step_filter (a : Step) :
    (filter level (text minimum attributes groups)).step a =
      filter (a.level?.getD level) (text minimum (attributes ++ a.placed groups) (groups ++ a.opened)) := by
  cases ha : a.level? with
  | none =>
    rw [step_filter_of_none ha, step_text ha]
    rfl
  | some l =>
    obtain rfl := Step.eq_wrap_of_level? ha
    simp only [step, wrap, Step.placed, Step.opened, List.append_nil, Option.getD_some]

/-! ### Any number of steps -/

theorem derive_filter (steps : List Step) :
    (filter level (text minimum attributes groups)).derive steps =
      filter (lastLevel level steps) (text minimum (attributes ++ placed groups steps) (groups ++ opened steps)) := by
  induction steps generalizing level attributes groups with
  | nil =>
    rw [derive_nil, placed, opened, List.flatMap_nil, List.append_nil, List.append_nil]
    rfl
  | cons a steps ih =>
    rw [derive_cons, step_filter, ih, lastLevel_cons, placed, opened_cons, List.append_assoc, List.append_assoc]

/-- A text handler alone collects the same from the steps that are no wrappings. -/
theorem derive_text (steps : List Step) :
    (text minimum attributes groups).derive (collecting steps) =
      text minimum (attributes ++ placed groups steps) (groups ++ opened steps) := by
  induction steps generalizing attributes groups with
  | nil =>
    rw [placed, opened, List.flatMap_nil, List.append_nil, List.append_nil]
    rfl
  | cons a steps ih =>
    rw [placed, opened_cons, ← List.append_assoc, ← List.append_assoc, ← ih]
    cases ha : a.level? with
    | none => rw [collecting_cons_of_none ha, derive_cons, step_text ha]
    | some l =>
      -- a wrapping is left out, and nothing is collected from it
      obtain rfl := Step.eq_wrap_of_level? ha
      simp only [Step.placed, Step.opened, List.append_nil]
      rfl

/-! ### What is written -/

theorem write_filter (h : Handler) (r : Record) :
    (filter level h).write r = if level ≤ r.level then h.write r else [] := by
  by_cases hl : level ≤ r.level
  · simp [write, enabled, line, Level.admits, hl]
  · simp [write, enabled, Level.admits, hl]

theorem write_text (r : Record) :
    (text minimum attributes groups).write r =
      if minimum ≤ r.level then [(text minimum attributes groups).line r] else [] := by
  simp [write, enabled, Level.admits]

end

/-- Derive handlers in any way from a filter in front of a text handler. There is one filter in front of a text handler,
at the level of the last wrapping. The text handler has all attributes and groups of the steps. A record is written
when both levels admit it, and its line is the one that the text handler writes when the wrappings are left out. -/
theorem derive_wrap_text (level minimum : Level) (attributes : List Placed) (groups : List String)
    (steps : List Step) :
    let alone := (text minimum attributes groups).derive (collecting steps)
    let h := ((text minimum attributes groups).wrap level).derive steps
    alone = text minimum (attributes ++ placed groups steps) (groups ++ opened steps) ∧
      h = filter (lastLevel level steps) alone ∧
      ∀ r : Record,
        (h.write r ≠ [] ↔ lastLevel level steps ≤ r.level ∧ minimum ≤ r.level) ∧
        (h.write r = [] ∨ h.write r = [alone.line r] ∧ alone.write r = [alone.line r]) := by
  intro alone h
  have halone : alone = text minimum (attributes ++ placed groups steps) (groups ++ opened steps) := derive_text steps
  have hh : h = filter (lastLevel level steps) alone := by
    rw [halone]
    exact derive_filter steps
  refine ⟨halone, hh, fun r => ?_⟩
  have hwrite : alone.write r = if minimum ≤ r.level then [alone.line r] else [] := by
    rw [halone]
    exact write_text r
  rw [hh, write_filter, hwrite]
  by_cases hlevel : lastLevel level steps ≤ r.level
  · by_cases hminimum : minimum ≤ r.level
    · simp [hlevel, hminimum]
    · simp [hlevel, hminimum]
  · simp [hlevel]

/-- A wrapping that lets more through has its effect, and a group stays open across it. -/
example : ((plain .debug).wrap .info).derive [.wrap .error, .group "g", .wrap .debug, .attributes [("k", "v")]] =
    filter .debug (text .debug [⟨["g"], "k", "v"⟩] ["g"]) := by decide

end Octal.Log.Handler
