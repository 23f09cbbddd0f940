import XmlHarvest.Proofs.Modifier.Lookup

/-! # Chains in stages

A chain of modifiers begins with the texts at its paths.  The first modifier takes all of
them, each further one takes what the one before it gave, and the mapper comes last.  So a
chain may be cut after any of its modifiers, and it does not matter whether a single path
was written in a list. -/
set_option autoImplicit false

namespace XmlHarvest

open Xml

def Scope.mapped (s : Scope) (mapper : Option Text) (v : Value) : Outcome Value :=
  match mapper with
  | none => .ok v
  | some name => s.mappers.map name v s.registry.debug

namespace Chain

variable {c c' : Chain}

theorem eq_single_of_modifiers (h : c.modifiers = []) : ∃ p, c = .single p [] := by
  cases c with
  | single p modifiers =>
    have hnil : modifiers = [] := h
    exact ⟨p, by rw [hnil]⟩
  | combined p others combiner modifiers => exact absurd h (List.cons_ne_nil _ _)

/-- The chain with the same paths and with some of the modifiers. -/
theorem exists_cut {first : List ModifierRef} (hfirst : first ≠ []) (c : Chain) :
    ∃ cut : Chain, cut.paths = c.paths ∧ cut.isCombined = c.isCombined ∧ cut.modifiers = first := by
  obtain ⟨m, ms, rfl⟩ := List.exists_cons_of_ne_nil hfirst
  cases c with
  | single p modifiers => exact ⟨.single p (m :: ms), rfl, rfl, rfl⟩
  | combined p others combiner modifiers => exact ⟨.combined p others m ms, rfl, rfl, rfl⟩

end Chain

section Stages

variable {s : Scope} {e : Element} {v : Value} {c c' : Chain} {f f' : FullField}

theorem runFull_eq_mapped : s.runFull e f = s.runChain e f.chain >>= s.mapped f.mapper := by
  rw [Scope.runFull]
  refine bind_congr fun v => ?_
  cases f.mapper <;> rfl

theorem applyAll_append (first rest : List ModifierRef) :
    s.applyAll (first ++ rest) v = s.applyAll first v >>= s.applyAll rest :=
  List.foldlM_append

theorem applyAll_cons (m : ModifierRef) (rest : List ModifierRef) :
    s.applyAll (m :: rest) v = s.registry.apply m [v] >>= s.applyAll rest :=
  List.foldlM_cons

/-- A single path gives a single text. -/
theorem textsAt_singleton (p : Path) : Path.textsAt [p] e = (fun text => [text]) <$> p.textAt e := by
  rw [Path.textsAt, List.mapM_cons, List.mapM_nil]
  cases p.textAt e <;> rfl

/-- All texts of a chain go to its first modifier, whatever the form of the chain. -/
theorem runChain_eq_texts {m : ModifierRef} {ms : List ModifierRef} (h : c.modifiers = m :: ms) :
    s.runChain e c = Path.textsAt c.paths e >>= fun texts =>
      s.registry.apply m (texts.map .str) >>= s.applyAll ms := by
  cases c with
  | single p modifiers =>
    have hmodifiers : modifiers = m :: ms := h
    rw [Scope.runChain, Chain.paths, textsAt_singleton, hmodifiers]
    cases p.textAt e with
    | error failure => rfl
    | ok text => exact applyAll_cons m ms
  | combined p others combiner modifiers =>
    obtain ⟨rfl, rfl⟩ := List.cons.inj h
    rfl

/-- Chains with the same paths and modifiers give the same value. -/
theorem runChain_eq_of_parts (hpaths : c.paths = c'.paths) (hmodifiers : c.modifiers = c'.modifiers) :
    s.runChain e c = s.runChain e c' := by
  cases hlist : c.modifiers with
  | cons m ms => rw [runChain_eq_texts hlist, runChain_eq_texts (hmodifiers ▸ hlist), hpaths]
  | nil =>
    obtain ⟨p, rfl⟩ := Chain.eq_single_of_modifiers hlist
    obtain ⟨p', rfl⟩ := Chain.eq_single_of_modifiers (hmodifiers ▸ hlist)
    obtain ⟨rfl⟩ : p = p' := List.singleton_inj.mp hpaths
    rfl

/-- A chain that is cut in two: the second part goes on from what the first one gives. -/
theorem runChain_cut {first rest : List ModifierRef} (hpaths : c'.paths = c.paths)
    (hfirst : c'.modifiers = first) (hne : first ≠ []) (hall : c.modifiers = first ++ rest) :
    s.runChain e c = s.runChain e c' >>= s.applyAll rest := by
  obtain ⟨m, ms, rfl⟩ := List.exists_cons_of_ne_nil hne
  have happend : s.applyAll (ms ++ rest) = fun w => s.applyAll ms w >>= s.applyAll rest :=
    funext fun w => applyAll_append ms rest
  rw [runChain_eq_texts hall, runChain_eq_texts hfirst, hpaths]
  simp only [bind_assoc, List.append_eq, happend]

/-- The first modifier of a field is called with all the texts, followed by its own
parameters, once a log of all details has shown them. -/
theorem runFull_of_calls {m : ModifierRef} {ms : List ModifierRef} {texts : List Text}
    {transform : Transform} (hmodifiers : f.chain.modifiers = m :: ms)
    (htexts : Path.textsAt f.chain.paths e = .ok texts)
    (hcalls : s.registry.Calls m.name transform) :
    s.runFull e f = (do
      Outcome.ofFault (s.registry.show? m (texts.map .str))
      (transform (texts.map .str ++ m.params)).mapError
        (Registry.transformation m (texts.map .str))) >>= s.applyAll ms >>= s.mapped f.mapper := by
  have hfirst : s.registry.apply m (texts.map .str) = _ := Registry.apply_of_calls hcalls
  rw [runFull_eq_mapped, runChain_eq_texts hmodifiers, htexts, ← hfirst]
  rfl

/-- Without modifiers a field has one path, and its text is all there is to map. -/
theorem runFull_of_no_modifiers (h : f.chain.modifiers = []) : ∃ p, f.chain.paths = [p] ∧
    s.runFull e f = p.textAt e >>= fun text => s.mapped f.mapper (.str text) := by
  obtain ⟨p, hchain⟩ := Chain.eq_single_of_modifiers h
  refine ⟨p, by rw [hchain]; rfl, ?_⟩
  rw [runFull_eq_mapped, hchain, Scope.runChain]
  cases p.textAt e <;> rfl

end Stages
end XmlHarvest
