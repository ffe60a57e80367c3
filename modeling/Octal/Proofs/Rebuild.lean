import Mathlib
import Octal.Proofs.Registry
import Octal.Proofs.Render
import Octal.Proofs.Session

/-!
# Sessions from printed definitions

A definition that is printed and read again is the same function, but for positions and for signs that have
become part of their numerals. `Expr.canonical` forgets both: it carries out every negation of a numeral that
has a value, and keeps results (`Expr.keepsResult_canonical`). Sessions whose functions have the same canonical
bodies are `Alike`. They answer alike and stay alike, whatever is evaluated.

All that a session ever registers has been read by the parser, so it can be printed and read again
(`Registry.Printable`). Printed definitions therefore make a session that is alike.
-/

namespace Octal

/-! ### Canonical trees -/

/-- The negation of a tree, carried out if the tree is a numeral whose negation has a value. -/
def Expr.negate : Expr → Expr
  | .num _ v =>
    match v.neg with
    | .ok w => .num 0 w
    | .error _ => .neg 0 (.num 0 v)
  | e => .neg 0 e

mutual

/-- The tree without its positions, where negations of numerals have been carried out from the inside out. -/
def Expr.canonical : Expr → Expr
  | .num _ v => .num 0 v
  | .var _ name => .var 0 name
  | .neg _ e => e.canonical.negate
  | .binary _ op l r => .binary 0 op l.canonical r.canonical
  | .cond _ c t e => .cond 0 c.canonical t.canonical e.canonical
  | .bind _ name v b => .bind 0 name v.canonical b.canonical
  | .call _ name args => .call 0 name (Expr.canonicalAll args)

def Expr.canonicalAll : List Expr → List Expr
  | [] => []
  | e :: rest => e.canonical :: Expr.canonicalAll rest

end

/-- The function with its body in canonical form. -/
abbrev Function.canonical (fn : Function) : Function := fn.mapBody Expr.canonical

def Statement.canonical : Statement → Statement
  | .eval e => .eval e.canonical
  | .define _ fn => .define 0 fn.canonical

mutual

theorem Expr.canonical_mapPos (f : Nat → Nat) : (e : Expr) → (e.mapPos f).canonical = e.canonical
  | .num .. | .var .. => rfl
  | .neg _ e => by rw [mapPos, canonical, canonical, e.canonical_mapPos]
  | .binary _ _ l r => by rw [mapPos, canonical, canonical, l.canonical_mapPos, r.canonical_mapPos]
  | .cond _ c t e => by
    rw [mapPos, canonical, canonical, c.canonical_mapPos, t.canonical_mapPos, e.canonical_mapPos]
  | .bind _ _ v b => by rw [mapPos, canonical, canonical, v.canonical_mapPos, b.canonical_mapPos]
  | .call _ _ args => by rw [mapPos, canonical, canonical, Expr.canonicalAll_mapPosAll f args]

theorem Expr.canonicalAll_mapPosAll (f : Nat → Nat) : (es : List Expr) →
    Expr.canonicalAll (Expr.mapPosAll f es) = Expr.canonicalAll es
  | [] => rfl
  | e :: rest => by
    rw [mapPosAll, canonicalAll, canonicalAll, e.canonical_mapPos, Expr.canonicalAll_mapPosAll f rest]

end

theorem Value.neg_of_nonneg {v : Value} (h : 0 ≤ v) : v.neg = .ok (-v) := by
  have hv : v ≠ Int64.minValue := by
    rintro rfl
    exact absurd h (by decide)
  rw [neg, if_neg (by simpa using hv)]

mutual

theorem Expr.canonical_fold : (e : Expr) → e.fold.canonical = e.canonical
  | .num .. | .var .. => rfl
  | .neg pos e => by
    rcases e.eq_num_or with ⟨p, v, rfl, hv⟩ | hv
    · rw [fold, if_pos hv, canonical, canonical, canonical, negate, Value.neg_of_nonneg hv]
    · rw [fold_neg pos hv, canonical, canonical, e.canonical_fold]
  | .binary _ _ l r => by rw [fold, canonical, canonical, l.canonical_fold, r.canonical_fold]
  | .cond _ c t e => by
    rw [fold, canonical, canonical, c.canonical_fold, t.canonical_fold, e.canonical_fold]
  | .bind _ _ v b => by rw [fold, canonical, canonical, v.canonical_fold, b.canonical_fold]
  | .call _ _ args => by rw [fold, canonical, canonical, Expr.canonicalAll_foldAll args]

theorem Expr.canonicalAll_foldAll : (es : List Expr) → Expr.canonicalAll (Expr.foldAll es) = Expr.canonicalAll es
  | [] => rfl
  | e :: rest => by rw [foldAll, canonicalAll, canonicalAll, e.canonical_fold, Expr.canonicalAll_foldAll rest]

end

section
variable {branches : Branches} {registry : Registry} {call call' : Function → List Value → Except Error Value}

theorem Expr.eval_negate (scope : Scope) (e : Expr) :
    e.negate.eval branches registry call scope = e.eval branches registry call scope >>= Value.neg := by
  cases e with
  | num pos v =>
    have hv : (Expr.num pos v).eval branches registry call scope >>= Value.neg = v.neg := rfl
    rw [hv, negate]
    cases h : v.neg with
    | ok w => rfl
    | error cause => exact h
  | _ => rfl

mutual

theorem Expr.eval_canonical (h : ∀ fn vs, call' (fn.mapBody canonical) vs = call fn vs) (scope : Scope) :
    (e : Expr) → e.canonical.eval branches (registry.map (Function.mapBody canonical)) call' scope =
      e.eval branches registry call scope
  | .num .. | .var .. => rfl
  | .neg _ e => by
    rw [canonical, eval_negate, e.eval_canonical h]
    rfl
  | .binary _ op l r => by rw [canonical, eval, eval, l.eval_canonical h, r.eval_canonical h]
  | .cond _ test whenTrue whenFalse => by
    rw [canonical, eval, eval, test.eval_canonical h, whenTrue.eval_canonical h,
      whenFalse.eval_canonical h]
  | .bind _ name value body => by
    have hbody (inner : Scope) := body.eval_canonical h inner
    simp only [canonical, eval, value.eval_canonical h, hbody]
  | .call _ name args => by
    rw [canonical, eval, eval, Registry.get?_mapBody, Expr.evalAll_canonical h scope args]
    cases registry.get? name with
    | none => rfl
    | some fn =>
      simp only [Option.map_some, h]
      rfl

theorem Expr.evalAll_canonical (h : ∀ fn vs, call' (fn.mapBody canonical) vs = call fn vs) (scope : Scope) :
    (es : List Expr) →
    Expr.evalAll branches (registry.map (Function.mapBody canonical)) call' scope (Expr.canonicalAll es) =
      Expr.evalAll branches registry call scope es
  | [] => rfl
  | e :: rest => by
    rw [canonicalAll, evalAll, evalAll, e.eval_canonical h, Expr.evalAll_canonical h scope rest]

end

end

theorem Expr.keepsResult_canonical : KeepsResult canonical :=
  fun _ _ _ _ h scope e => e.eval_canonical h scope

theorem perform_canonical (settings : Settings) (registry : Registry) (last : Value) (ss : List Statement) :
    perform settings (registry.map Function.canonical) last (ss.map Statement.canonical) =
      ((perform settings registry last ss).1, (perform settings registry last ss).2.map Function.canonical) :=
  Expr.keepsResult_canonical.perform settings registry (fun _ => rfl) (fun _ _ => ⟨0, rfl⟩) last ss

/-- Functions that have the same canonical bodies do the same, and what they leave has so as well. -/
theorem perform_of_canonical (settings : Settings) {registry registry' : Registry}
    (h : registry.map Function.canonical = registry'.map Function.canonical) (last : Value)
    (ss : List Statement) :
    (perform settings registry last ss).1 = (perform settings registry' last ss).1 ∧
      (perform settings registry last ss).2.map Function.canonical =
        (perform settings registry' last ss).2.map Function.canonical := by
  have h₁ := perform_canonical settings registry last ss
  have h₂ := perform_canonical settings registry' last ss
  rw [h] at h₁
  exact Prod.mk.inj (h₁.symm.trans h₂)

/-! ### Reading definitions again -/

/-- What is written for a statement is read as one, under strict and lenient scanning alike. -/
theorem Statement.exists_parse_render (s : Statement) (h : s.Named) (lexing : Lexing) :
    ∃ t, Program.parse lexing (.ofString s.render) = ⟨[t], none⟩ ∧ t.erase = s.fold.erase := by
  obtain ⟨d, hd, hv, hl, hlex⟩ := s.exists_sentence h
  have hitems : ((Source.ofString s.render).scan lexing).map (Item.mapPos fun _ => 0) =
      (Grammar.Script.last d (terminal .eof "")).tokens.map .token := by
    have hadmits : lexing.admits ∘ Item.mapPos (fun _ => 0) = lexing.admits :=
      funext fun item => lexing.admits_mapPos _ item
    have htokens (ts : List Token) : (ts.map Item.token).filter lexing.admits = ts.map .token := by
      refine List.filter_eq_self.2 fun item hitem => ?_
      obtain ⟨t, -, rfl⟩ := List.mem_map.1 hitem
      cases lexing <;> rfl
    have hscript : Scan.lex false .blank s.render.toList =
        (Grammar.Script.last d (terminal .eof "")).tokens.map .token := by
      rw [hlex]
      simp [terminal]
    rw [Source.scan_eq_filter, ← hadmits, ← List.filter_map, Scan.map_items_ofString, hscript, htokens]
  have hparse : (Program.parse lexing (.ofString s.render)).mapPos (fun _ => 0) = ⟨[s.fold.erase], none⟩ := by
    rw [Program.parse, ← Program.ofItems_mapPos, hitems, Program.ofItems_script]
    · simp [Grammar.Script.statements, hd]
    · simpa [Grammar.Script.Valid] using hv
    · simp [hl, terminal]
  generalize Program.parse lexing (.ofString s.render) = p at hparse
  obtain ⟨statements, fault⟩ := p
  obtain ⟨hstatements, hfault⟩ := Program.mk.inj hparse
  obtain ⟨t, rfl, ht⟩ := List.map_eq_singleton_iff.1 hstatements
  obtain rfl := Option.map_eq_none_iff.1 hfault
  exact ⟨t, rfl, ht⟩

theorem Function.canonical_of_erase {f g : Function} (h : f.erase = { g with body := g.body.fold.erase }) :
    f.canonical = g.canonical := by
  obtain ⟨name, params, body⟩ := f
  obtain ⟨rfl, rfl, hbody⟩ := Function.mk.inj h
  have hcanonical : body.canonical = g.body.canonical := by
    rw [← body.canonical_mapPos fun _ => 0, hbody, Expr.canonical_mapPos, Expr.canonical_fold]
  rw [canonical, mapBody, hcanonical]
  rfl

/-- The names of the function can be read. -/
abbrev Function.Named (f : Function) : Prop := (Statement.define 0 f).Named

/-- A printed definition is read as the definition of a function that is the same in canonical form. -/
theorem Function.exists_parse_render {f : Function} (h : f.Named) (lexing : Lexing) :
    ∃ pos g, Program.parse lexing (.ofString f.render) = ⟨[.define pos g], none⟩ ∧ g.canonical = f.canonical := by
  obtain ⟨t, ht, herase⟩ := (Statement.define 0 f).exists_parse_render h lexing
  cases t with
  | eval e => cases herase
  | define pos g => exact ⟨pos, g, ht, canonical_of_erase (Statement.define.inj herase).2⟩

/-! ### Sessions -/

/-- The functions are in order, and their definitions can be printed and read again. -/
structure Registry.Printable (r : Registry) : Prop where
  ordered : r.Ordered
  named : ∀ f ∈ r, f.Named

theorem Registry.Ordered.mapBody {r : Registry} (h : r.Ordered) (φ : Expr → Expr) :
    Registry.Ordered (r.map (Function.mapBody φ)) :=
  List.pairwise_map.2 h

theorem Registry.Printable.perform {r : Registry} (h : r.Printable) (settings : Settings) (last : Value)
    {ss : List Statement} (hss : ∀ s ∈ ss, s.Named) : (perform settings r last ss).2.Printable := by
  induction ss generalizing r last with
  | nil => exact h
  | cons s ss ih =>
    obtain ⟨hs, hss⟩ := List.forall_mem_cons.1 hss
    rw [perform_cons]
    split
    · refine ih ?_ _ hss
      cases s with
      | eval e => exact h
      | define pos f =>
        refine ⟨h.ordered.set f, fun g hg => ?_⟩
        rcases mem_set hg with rfl | hg
        · exact hs
        · exact h.named g hg
    · exact h

namespace Session

/-- The session after evaluating `sources` one after the other. -/
def replay (s : Session) (sources : List Source) : Session := sources.foldl Session.after s

/-- What evaluating `sources` one after the other gives. -/
def answers (s : Session) : List Source → List (Except Error String)
  | [] => []
  | src :: rest => s.evaluate src :: (s.after src).answers rest

theorem replay_cons (s : Session) (src : Source) (sources : List Source) :
    s.replay (src :: sources) = (s.after src).replay sources := rfl

theorem settings_replay (s : Session) (sources : List Source) : (s.replay sources).settings = s.settings := by
  induction sources generalizing s with
  | nil => rfl
  | cons src sources ih => exact ih (s.after src)

theorem printable_replay {s : Session} (h : s.registry.Printable) (sources : List Source) :
    (s.replay sources).registry.Printable := by
  induction sources generalizing s with
  | nil => exact h
  | cons src sources ih =>
    rw [replay_cons]
    refine ih ?_
    rw [after, outcome, registry_run]
    exact h.perform s.settings 0 fun t ht => Program.named_of_mem ht

/-- The sessions differ only in how the bodies of their functions are written. -/
structure Alike (s s' : Session) : Prop where
  settings : s.settings = s'.settings
  registry : s.registry.map Function.canonical = s'.registry.map Function.canonical

namespace Alike
variable {s s' : Session}

theorem after (h : Alike s s') (src : Source) :
    s.evaluate src = s'.evaluate src ∧ Alike (s.after src) (s'.after src) := by
  have hperform := perform_of_canonical s'.settings h.registry 0
    (Program.parse s'.settings.lexing src).statements
  constructor
  · rw [evaluate, evaluate, outcome, outcome, result_run_eq, result_run_eq, h.settings, hperform.1]
  · refine ⟨h.settings, ?_⟩
    rw [Session.after, Session.after, outcome, outcome, registry_run, registry_run, h.settings, hperform.2]

theorem answers (h : Alike s s') (sources : List Source) : s.answers sources = s'.answers sources := by
  induction sources generalizing s s' with
  | nil => rfl
  | cons src sources ih =>
    obtain ⟨hanswer, hafter⟩ := h.after src
    rw [Session.answers, Session.answers, hanswer, ih hafter]

theorem functions (h : Alike s s') : s.functions = s'.functions := by
  have names (r : Registry) : r.names = Registry.names (r.map Function.canonical) := by
    rw [Registry.names, Registry.names, List.map_map]
    rfl
  rw [Session.functions, Session.functions, names, h.registry, ← names]

end Alike

/-- Evaluating a printed definition registers the function again. -/
theorem evaluate_render (s : Session) {f : Function} (h : f.Named) :
    ∃ g : Function, g.canonical = f.canonical ∧ s.evaluate (.ofString f.render) = .ok "0" ∧
      s.after (.ofString f.render) = { s with registry := s.registry.set g } := by
  obtain ⟨pos, g, hparse, hg⟩ := Function.exists_parse_render h s.settings.lexing
  refine ⟨g, hg, ?_, ?_⟩
  · rw [evaluate, outcome, hparse]
    rfl
  · rw [after, outcome, hparse]
    rfl

theorem replay_definitions {fs : List Function} (hfs : ∀ f ∈ fs, f.Named) (s : Session) :
    s.answers (fs.map fun f => .ofString f.render) = fs.map (fun _ => .ok "0") ∧
    (s.replay (fs.map fun f => .ofString f.render)).registry.map Function.canonical =
      (fs.map Function.canonical).foldl (fun (r : Registry) f => r.set f) (s.registry.map Function.canonical) := by
  induction fs generalizing s with
  | nil => exact ⟨rfl, rfl⟩
  | cons f fs ih =>
    obtain ⟨hf, hfs⟩ := List.forall_mem_cons.1 hfs
    obtain ⟨g, hg, hevaluate, hafter⟩ := s.evaluate_render hf
    obtain ⟨hanswers, hregistry⟩ := ih hfs (s.after (.ofString f.render))
    rw [hafter] at hregistry
    rw [List.map_cons, List.map_cons, List.map_cons, answers, replay_cons, List.foldl_cons, hevaluate, hanswers,
      hafter, hregistry, ← hg, Registry.set_mapBody]
    exact ⟨rfl, rfl⟩

/-- The definitions of a session that has been reached in any way, evaluated in any order in a new session with
the same settings, make a session that has the same functions and gives the same answers from then on. -/
theorem rebuild_of_definitions (settings : Settings) (history : List Source) (order : List String)
    (h : order.Perm ((Session.new settings).replay history).functions) :
    ∃ texts : List String,
      order.map ((Session.new settings).replay history).definition? = texts.map some ∧
      (Session.new settings).answers (texts.map .ofString) = texts.map (fun _ => .ok "0") ∧
      ((Session.new settings).replay (texts.map .ofString)).functions =
        ((Session.new settings).replay history).functions ∧
      ∀ sources, ((Session.new settings).replay (texts.map .ofString)).answers sources =
        ((Session.new settings).replay history).answers sources := by
  have hp : ((Session.new settings).replay history).registry.Printable :=
    printable_replay (s := .new settings) ⟨List.Pairwise.nil, List.forall_mem_nil _⟩ history
  have hsettings := (Session.new settings).settings_replay history
  generalize (Session.new settings).replay history = s at h hp hsettings
  obtain ⟨fs, hfs, hget⟩ := hp.ordered.exists_perm h
  have htexts : (fs.map Function.render).map Source.ofString = fs.map fun f => .ofString f.render := List.map_map
  obtain ⟨hanswers, hregistry⟩ :=
    replay_definitions (fun f hf => hp.named f (hfs.mem_iff.1 hf)) (Session.new settings)
  rw [← htexts] at hanswers hregistry
  have halike : Alike ((Session.new settings).replay ((fs.map Function.render).map .ofString)) s := by
    refine ⟨(settings_replay _ _).trans hsettings.symm, hregistry.trans ?_⟩
    exact (hp.ordered.mapBody Expr.canonical).foldl_set (hfs.map _)
  refine ⟨fs.map Function.render, ?_, ?_, halike.functions, halike.answers⟩
  · calc order.map s.definition? = (order.map s.registry.get?).map (Option.map Function.render) := by
          rw [List.map_map]
          rfl
      _ = (fs.map Function.render).map some := by
          rw [hget, List.map_map, List.map_map]
          rfl
  · rw [hanswers, List.map_map]
    rfl

/-- The body of `g` is read again as another tree, and `g` is defined before the function it calls. -/
theorem rebuild_of_definitions_reversed :
    ((Session.new .default).replay
        [.ofString "DEF f()=7;f(", .ofString "DEF g(n)=IF n THEN -(-(0))-n ELSE f()"]).functions = ["f", "g"] ∧
    ((Session.new .default).replay
        [.ofString "DEF g(n) = IF n THEN (--0 - n) ELSE f()", .ofString "DEF f() = 7"]).functions = ["f", "g"] ∧
    ∀ sources, ((Session.new .default).replay
        [.ofString "DEF g(n) = IF n THEN (--0 - n) ELSE f()", .ofString "DEF f() = 7"]).answers sources =
      ((Session.new .default).replay
        [.ofString "DEF f()=7;f(", .ofString "DEF g(n)=IF n THEN -(-(0))-n ELSE f()"]).answers sources := by
  have hfunctions : ((Session.new .default).replay
      [.ofString "DEF f()=7;f(", .ofString "DEF g(n)=IF n THEN -(-(0))-n ELSE f()"]).functions = ["f", "g"] := by
    cbv
  have hdefinitions : ["g", "f"].map ((Session.new .default).replay
      [.ofString "DEF f()=7;f(", .ofString "DEF g(n)=IF n THEN -(-(0))-n ELSE f()"]).definition? =
        List.map some ["DEF g(n) = IF n THEN (--0 - n) ELSE f()", "DEF f() = 7"] := by
    cbv
  obtain ⟨texts, htexts, -, hrebuilt⟩ := rebuild_of_definitions .default
    [.ofString "DEF f()=7;f(", .ofString "DEF g(n)=IF n THEN -(-(0))-n ELSE f()"] ["g", "f"]
    (hfunctions ▸ .swap "f" "g" [])
  obtain rfl := List.map_injective_iff.2 (Option.some_injective _) (htexts.symm.trans hdefinitions)
  exact ⟨hfunctions, hrebuilt.1.trans hfunctions, hrebuilt.2⟩

end Session

end Octal
