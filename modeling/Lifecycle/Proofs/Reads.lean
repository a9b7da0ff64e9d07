import Lifecycle.Catalog
import Lifecycle.Proofs.Ledgers

/-!
# Work that writes nothing

Work *reads* when no run of it writes, whatever the contents are, whichever calls are made to fail,
and whether the run ends in a fault or not (`Work.Reads`). Reading is kept by sequence, so that a
lookup reads because the operations of the store that it is made of do: the gate
(`Gate.reads_ensure`), the ledgers (`Preview.reads_changesOf`), previews (`Preview.reads_ofSpace`),
and the listings of policies, of decoders to choose and of the catalog.
-/

namespace Lifecycle

variable {α β : Type} {deployment : Deployment}

namespace Work

/-- Work that writes nothing in any world that it is run on. -/
def Reads (work : Work α) (deployment : Deployment) : Prop :=
  ∀ world : World, world.After [] none (work.runOn deployment world).2

theorem Reads.of_performs {work : Work α}
    (h : ∀ world : World, ∃ outcome, work.Performs deployment world [] outcome) :
    work.Reads deployment := by
  intro world
  obtain ⟨outcome, hperforms⟩ := h world
  obtain ⟨result, later, hrun, -, hafter⟩ := hperforms.run_of_read
  rw [hrun]
  exact hafter

/-! ### Sequences -/

theorem reads_pure (value : α) : (pure value : Work α).Reads deployment := fun world => .refl world

theorem reads_throw (fault : Fault) : (throw fault : Work α).Reads deployment :=
  fun world => .refl world

theorem reads_ofExcept (result : Except Fault α) : (ofExcept result).Reads deployment := by
  intro world
  rw [runOn_ofExcept]
  exact .refl world

theorem reads_read : (read : Work Deployment).Reads deployment := fun world => .refl world

theorem reads_get : (get : Work World).Reads deployment := fun world => .refl world

theorem reads_settings : settings.Reads deployment := fun world => .refl world

theorem Reads.bind {work : Work α} {next : α → Work β} (h : work.Reads deployment)
    (hnext : ∀ value, (next value).Reads deployment) : (work >>= next).Reads deployment := by
  intro world
  have hfirst := h world
  rw [runOn_bind]
  rcases hrun : work.runOn deployment world with ⟨_ | value, middle⟩
  · rw [hrun] at hfirst
    exact hfirst
  · rw [hrun] at hfirst
    exact hfirst.trans (hnext value middle)

theorem Reads.ite {condition : Prop} [Decidable condition] {work other : Work α}
    (h : work.Reads deployment) (h' : other.Reads deployment) :
    (if condition then work else other).Reads deployment := by
  split
  · exact h
  · exact h'

end Work

open Work

/-! ### The store -/

namespace Store

theorem reads_search (h : deployment.Standard) (index : String) (asked : Search) :
    (search index asked).Reads deployment :=
  .of_performs fun _ => ⟨_, performs_search h.backend index asked⟩

theorem reads_scanPages (h : deployment.Standard) (index : String) (scanned : Scan)
    (step : β → Hit → Except Fault β) (fuel offset : Nat) (result : β) :
    (scanPages index scanned step fuel offset result).Reads deployment := by
  induction fuel generalizing offset result with
  | zero => exact reads_pure result
  | succ fuel ih =>
    rw [scanPages]
    refine (reads_search h index _).bind fun page => ?_
    refine (reads_ofExcept _).bind fun next => ?_
    exact (reads_pure next).ite (ih _ next)

theorem reads_scan (h : deployment.Standard) (index : String) (scanned : Scan) (start : β)
    (step : β → Hit → Except Fault β) : (scan index scanned start step).Reads deployment :=
  reads_get.bind fun _ => reads_scanPages h index scanned step _ 0 start

end Store

namespace Resolver

theorem reads_resolve (h : deployment.Standard) (index : String) :
    (resolve index).Reads deployment := by
  rw [resolve]
  refine (reads_get.bind fun world => reads_pure _).bind fun kept => ?_
  cases kept with
  | some fields => exact reads_pure fields
  | none =>
    -- a probe that fails ends with all candidates as fields, and not in a fault
    intro world
    obtain ⟨fields, later, -, hrun, hafter⟩ := runOn_probe world h index
    show world.After [] none ((probe index).runOn deployment world).2
    rw [hrun]
    exact hafter

theorem reads_within (h : deployment.Standard) (index : String) (space : Space) (query : Json) :
    (within index space query).Reads deployment := by
  -- the name of a space is not blank, so that the query is scoped
  have hname : space.name ≠ "" := by cases space <;> decide
  rw [within, scopedQuery]
  · exact (reads_resolve h index).bind fun _ => reads_ofExcept _
  · exact hname

end Resolver

open Store Resolver

/-! ### Policies -/

namespace Policies

theorem reads_get? (h : deployment.Standard) (space : Space) : (get? space).Reads deployment := by
  rw [get?, first?]
  refine reads_settings.bind fun settings => ?_
  refine (reads_within h _ space _).bind fun query => ?_
  refine (reads_search h _ _).bind fun page => ?_
  cases page.hits with
  | nil => exact reads_pure none
  | cons hit rest => exact (reads_ofExcept _).bind fun record => reads_pure _

theorem reads_integrationEntries (h : deployment.Standard) (space : Space) (ids : List String)
    (paths : Option (List String)) : (integrationEntries space ids paths).Reads deployment := by
  rw [integrationEntries]
  refine (reads_pure _).ite ?_
  refine reads_settings.bind fun settings => ?_
  exact (reads_within h _ space _).bind fun query => reads_scan h _ _ _ _

theorem reads_search (h : deployment.Standard) (space : Space) (asked : Search)
    (paths : Option (List String)) : (search space asked paths).Reads deployment := by
  rw [search]
  refine reads_settings.bind fun settings => ?_
  refine (reads_within h _ space _).bind fun query => ?_
  refine (Store.reads_search h _ _).bind fun page => ?_
  refine (reads_ofExcept _).bind fun records => ?_
  exact (reads_integrationEntries h space _ paths).bind fun entries => reads_pure _

end Policies

/-! ### The gate -/

namespace Gate

theorem reads_decoderExists (h : deployment.Standard) (space : Space) (decoder : String) :
    (decoderExists space decoder).Reads deployment := by
  rw [decoderExists]
  refine reads_settings.bind fun settings => ?_
  refine (reads_within h _ space _).bind fun query => ?_
  exact (reads_search h _ _).bind fun page => reads_pure _

theorem reads_check (h : deployment.Standard) (space : Space) :
    (check space).Reads deployment := by
  rw [check]
  refine (Policies.reads_get? h space).bind fun policy => ?_
  have hsatisfied : (isSatisfied space policy).Reads deployment := by
    cases policy with
    | none => exact reads_pure false
    | some record => exact (reads_pure false).ite (reads_decoderExists h space _)
  exact hsatisfied.bind fun satisfied => reads_pure _

theorem reads_ensure (h : deployment.Standard) (space : Space) :
    (ensure space).Reads deployment := by
  rw [ensure]
  refine (reads_check h space).bind fun requirement => ?_
  exact (reads_throw _).ite (reads_pure ())

theorem reads_candidates (h : deployment.Standard) (space : Space) (text : Option String)
    (first size : Int) : (candidates space text first size).Reads deployment := by
  rw [candidates]
  refine reads_settings.bind fun settings => ?_
  refine (reads_within h _ space _).bind fun query => ?_
  refine (reads_search h _ _).bind fun page => ?_
  exact (reads_ofExcept _).bind fun items => reads_pure _

end Gate

/-! ### Ledgers and previews -/

namespace Ledger

theorem reads_hashes (h : deployment.Standard) (type : EntityType) (space : Space) :
    (hashes type space).Reads deployment := by
  rw [hashes]
  refine reads_settings.bind fun settings => ?_
  exact (reads_within h _ space _).bind fun query => reads_scan h _ _ _ _

theorem reads_entityChanges (h : deployment.Standard) (type : EntityType) (space target : Space) :
    (entityChanges type space target).Reads deployment := by
  rw [entityChanges]
  refine (reads_hashes h type space).bind fun source => ?_
  exact (reads_hashes h type target).bind fun successor => reads_pure _

theorem reads_policyChanges (h : deployment.Standard) (space target : Space) :
    (policyChanges space target).Reads deployment := by
  rw [policyChanges]
  refine (Policies.reads_get? h space).bind fun found => ?_
  cases found with
  | none => exact reads_pure []
  | some source => exact (Policies.reads_get? h target).bind fun successor => reads_pure _

theorem reads_compared (h : deployment.Standard) (space target : Space) :
    (compared space target).Reads deployment := by
  rw [compared]
  refine (reads_policyChanges h space target).bind fun policy => ?_
  refine (reads_entityChanges h .integrations space target).bind fun integrations => ?_
  refine (reads_entityChanges h .decoders space target).bind fun decoders => ?_
  refine (reads_entityChanges h .kvdbs space target).bind fun kvdbs => ?_
  exact (reads_entityChanges h .rules space target).bind fun rules => reads_pure _

theorem reads_told (space : Space) : (told space).Reads deployment :=
  .of_performs fun _ => ⟨_, performs_told space⟩

theorem reads_changes (h : deployment.Standard) (space target : Space) :
    (changes space target).Reads deployment := by
  rw [changes]
  refine reads_read.bind fun found => ?_
  rcases found.fixedChanges, found.settings.changeLedger with ⟨_ | value, _ | _⟩
  · exact reads_compared h space target
  · exact reads_told space
  · exact reads_ofExcept _
  · exact reads_ofExcept _

end Ledger

namespace Preview

theorem reads_changesOf (h : deployment.Standard) (space : Space) :
    (changesOf space).Reads deployment := by
  rw [changesOf]
  refine (reads_ofExcept _).bind fun target => ?_
  exact (Ledger.reads_changes h space target).bind fun raw => reads_pure _

theorem reads_namesIn (h : deployment.Standard) (type : EntityType) (ids : List String)
    (space : Space) : (namesIn type ids space).Reads deployment := by
  rw [namesIn]
  refine reads_settings.bind fun settings => ?_
  exact (reads_within h _ space _).bind fun query => reads_scan h _ _ _ _

theorem reads_namesFor (h : deployment.Standard) (type : EntityType) (changes : List Change)
    (space target : Space) : (namesFor type changes space target).Reads deployment := by
  rw [namesFor]
  refine (reads_pure []).ite ?_
  refine (reads_namesIn h type _ space).bind fun source => ?_
  exact (reads_namesIn h type _ target).bind fun successor => reads_pure _

theorem reads_ofSpace (h : deployment.Standard) (space : Space) :
    (ofSpace space).Reads deployment := by
  rw [ofSpace]
  refine (reads_ofExcept _).bind fun target => ?_
  refine (reads_changesOf h space).bind fun found => ?_
  refine (reads_namesFor h .integrations _ space target).bind fun integrations => ?_
  refine (reads_namesFor h .decoders _ space target).bind fun decoders => ?_
  refine (reads_namesFor h .kvdbs _ space target).bind fun kvdbs => ?_
  exact (reads_namesFor h .rules _ space target).bind fun rules => reads_pure _

end Preview

/-! ### The catalog -/

namespace Catalog

theorem reads_referringTitles (h : deployment.Standard) (type : EntityType) (space : Space)
    (ids : List String) : (referringTitles type space ids).Reads deployment := by
  rw [referringTitles]
  refine (reads_pure []).ite ?_
  refine reads_settings.bind fun settings => ?_
  exact (reads_within h _ space _).bind fun query => reads_scan h _ _ _ _

theorem reads_search (h : deployment.Standard) (type : EntityType) (space : Space)
    (asked : Search) : (search type space asked).Reads deployment := by
  rw [search]
  refine reads_settings.bind fun settings => ?_
  refine (reads_within h _ space _).bind fun query => ?_
  refine (Store.reads_search h _ _).bind fun page => ?_
  refine (reads_ofExcept _).bind fun items => ?_
  refine (reads_pure _).ite ?_
  exact (reads_referringTitles h type space _).bind fun titles => reads_pure _

end Catalog

end Lifecycle
