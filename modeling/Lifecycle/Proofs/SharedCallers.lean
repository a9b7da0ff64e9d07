import Lifecycle.Proofs.SharedProbes

/-!
# What callers of a shared probe get

Every call adds one caller (`callers_run`), who is served at once or shares a probe of the index
that it asked for (`Caller.Tied`). When the callbacks of a probe have run, it is out of flight for
good (`Landed.run`), so that nobody waits for it any more: all who share it have come to what it has
come to, but for those who gave up (`Landed.phase`).

Who gives up has done so by itself (`State.Patient.run`), stays so (`callers_run_of_done`), and
leaves everything else as it would have been without (`Alike.run_filter`). `Attended` says all this
of a run, and `single_flight` puts it together with what is said of the probes.
-/

namespace Lifecycle.SingleFlight

variable {candidates : List String} {state after : State} {event : Event} {position : Nat}
  {caller : Caller}

/-! ### One caller for each call -/

theorem Caller.index_leave (caller : Caller) : caller.leave.index = caller.index := by
  rw [leave]
  split <;> rfl

theorem Caller.index_told (caller : Caller) (number : Nat) (phase : Phase) :
    (caller.told number phase).index = caller.index := by
  rw [told]
  split <;> rfl

theorem getElem?_join (h : state.callers[position]? = some caller) (newcomer : Caller) :
    (state.join newcomer).callers[position]? = some caller := by
  rw [State.join, List.getElem?_append_left (List.getElem?_eq_some_iff.mp h).1, h]

theorem eq_of_getElem?_join (h : state.callers[position]? = none) {newcomer : Caller}
    (hcaller : (state.join newcomer).callers[position]? = some caller) : caller = newcomer := by
  rw [State.join, List.getElem?_append_right (List.getElem?_eq_none_iff.mp h)] at hcaller
  exact List.mem_singleton.mp (List.mem_of_getElem? hcaller)

theorem getElem?_abandon (state : State) (leaving position : Nat) :
    (abandon state leaving).callers[position]? = state.callers[position]?.map fun caller =>
      if leaving = position then caller.leave else caller := by
  simp [abandon, List.getElem?_modify]

theorem getElem?_land (state : State) (number : Nat) (index : String) (status : Status)
    (position : Nat) :
    (state.land number index status).callers[position]? =
      state.callers[position]?.map (Caller.told number status.phase) := by
  simp [State.land]

theorem Effect.callers (h : Effect candidates state event after) :
    after.callers.map (·.index) = state.callers.map (·.index) ++ event.index?.toList := by
  cases h with
  | call admits => cases admits <;> simp [State.join, State.launch, Event.index?]
  | leave position =>
    refine List.ext_getElem? fun i => ?_
    simp only [List.getElem?_map, getElem?_abandon, Event.index?, Option.toList_none,
      List.append_nil]
    cases state.callers[i]? with
    | none => rfl
    | some caller =>
      simp only [Option.map_some]
      split
      · rw [caller.index_leave]
      · rfl
  | answer running found => simp [State.mark, Event.index?]
  | cancel running lost => simp [State.mark, Event.index?]
  | land probe ended => simp [State.land, Event.index?, Caller.index_told]
  | missed ended => simp [Event.index?]
  | early running => simp [Event.index?]

/-- The callers of a run are those who were there and those who have asked, in order. -/
theorem callers_run (sound : Sound state) (events : List Event) :
    (run candidates state events).callers.map (·.index) =
      state.callers.map (·.index) ++ asked events := by
  induction events generalizing state with
  | nil => simp [run, asked]
  | cons event rest ih =>
    have hrest := ih (sound.step candidates event)
    rw [asked_cons, ← List.append_assoc, ← (sound.effect candidates event).callers]
    exact hrest

/-! ### What becomes of a caller -/

/-- What an event makes of the caller at a position: it stays as it is, or it had waited and gives
up or is told what its probe has come to. -/
inductive Turn (state : State) (event : Event) (position : Nat) (caller : Caller) :
    Caller → Prop where
  | stay : Turn state event position caller caller
  | leave (waits : caller.phase = .waiting) (own : event = .giveUp position) :
    Turn state event position caller { caller with phase := .gaveUp }
  | told {number : Nat} {index : String} {status : Status} (waits : caller.phase = .waiting)
    (shares : caller.probe = some number) (probe : state.IsProbe number index status) :
    Turn state event position caller { caller with phase := status.phase }

/-- A caller is the same whatever becomes of it. -/
theorem Turn.eq {turned : Caller} (h : Turn state event position caller turned) :
    turned = { caller with phase := turned.phase } := by
  cases h <;> rfl

theorem Effect.turn (h : Effect candidates state event after)
    (hcaller : state.callers[position]? = some caller) :
    ∃ turned, after.callers[position]? = some turned ∧
      Turn state event position caller turned := by
  cases h with
  | call admits => cases admits <;> exact ⟨caller, getElem?_join hcaller _, .stay⟩
  | leave other =>
    refine ⟨_, by rw [getElem?_abandon, hcaller, Option.map_some], ?_⟩
    split
    · next heq =>
      rw [Caller.leave]
      split
      · next hwaits => exact .leave hwaits (heq ▸ rfl)
      · exact .stay
    · exact .stay
  | answer running found => exact ⟨caller, hcaller, .stay⟩
  | cancel running lost => exact ⟨caller, hcaller, .stay⟩
  | land probe ended =>
    refine ⟨_, by rw [getElem?_land, hcaller, Option.map_some], ?_⟩
    rw [Caller.told]
    split
    · next hwaits => exact .told hwaits.2 hwaits.1 probe
    · exact .stay
  | missed ended => exact ⟨caller, hcaller, .stay⟩
  | early running => exact ⟨caller, hcaller, .stay⟩

/-- A caller is the same after a run. -/
theorem exists_caller_run (sound : Sound state) (candidates : List String)
    (hcaller : state.callers[position]? = some caller) (events : List Event) :
    ∃ turned, (run candidates state events).callers[position]? = some turned ∧
      turned = { caller with phase := turned.phase } := by
  induction events generalizing state caller with
  | nil => exact ⟨caller, hcaller, rfl⟩
  | cons event rest ih =>
    obtain ⟨next, hnext, hturn⟩ := (sound.effect candidates event).turn hcaller
    obtain ⟨turned, hturned, hsame⟩ := ih (sound.step candidates event) hnext
    exact ⟨turned, hturned, by rw [hsame, hturn.eq]⟩

/-- Who does not wait any more stays as it is. -/
theorem callers_run_of_done (sound : Sound state)
    (hcaller : state.callers[position]? = some caller) (hdone : caller.phase ≠ .waiting)
    (events : List Event) : (run candidates state events).callers[position]? = some caller := by
  induction events generalizing state with
  | nil => exact hcaller
  | cons event rest ih =>
    refine ih (sound.step candidates event) ?_
    obtain ⟨turned, hturned, hturn⟩ := (sound.effect candidates event).turn hcaller
    cases hturn with
    | stay => exact hturned
    | leave waits own => exact absurd waits hdone
    | told waits shares probe => exact absurd waits hdone

/-! ### Callers and their probes -/

/-- A caller that shares a probe shares one of its index, and it waits, has given up, or has come to
what the probe has come to. -/
def Caller.Tied (state : State) (caller : Caller) : Prop :=
  ∀ number, caller.probe = some number → ∃ status, state.IsProbe number caller.index status ∧
    (caller.phase = .waiting ∨ caller.phase = .gaveUp ∨ caller.phase = status.phase)

theorem Caller.Tied.turn {turned : Caller} (h : caller.Tied state)
    (hturn : Turn state event position caller turned)
    (heffect : Effect candidates state event after) : turned.Tied after := by
  intro number hprobe
  cases hturn with
  | stay =>
    obtain ⟨status, hstatus, hphase⟩ := h number hprobe
    obtain ⟨s, hs, hsame⟩ := heffect.isProbe hstatus
    refine ⟨s, hs, ?_⟩
    -- nobody has come to anything yet while the probe ran
    rcases hsame with rfl | rfl
    · rcases hphase with hwaits | hgaveUp | hrunning
      · exact .inl hwaits
      · exact .inr (.inl hgaveUp)
      · exact .inl hrunning
    · exact hphase
  | leave waits own =>
    obtain ⟨status, hstatus, -⟩ := h number hprobe
    obtain ⟨s, hs, -⟩ := heffect.isProbe hstatus
    exact ⟨s, hs, .inr (.inl rfl)⟩
  | @told n index status waits shares probe =>
    obtain rfl : n = number := by simpa [shares] using hprobe
    obtain ⟨s, hs, -⟩ := h n shares
    obtain ⟨-, rfl⟩ := probe.unique hs
    obtain ⟨t, ht, hsame⟩ := heffect.isProbe hs
    refine ⟨t, ht, ?_⟩
    rcases hsame with rfl | rfl
    · exact .inl rfl
    · exact .inr (.inr rfl)

theorem Status.phase_ne_gaveUp (status : Status) : status.phase ≠ .gaveUp := by
  cases status <;> simp [phase]

/-- A caller comes from an earlier one, or it has just asked: then it has not given up. -/
theorem Effect.caller_of (h : Effect candidates state event after)
    (hcaller : after.callers[position]? = some caller) :
    (∃ old, state.callers[position]? = some old ∧ Turn state event position old caller) ∨
      caller.phase ≠ .gaveUp ∧ caller.Tied after := by
  cases hold : state.callers[position]? with
  | some old =>
    obtain ⟨turned, hturned, hturn⟩ := h.turn hold
    obtain rfl : turned = caller := by simpa [hcaller, eq_comm] using hturned
    exact .inl ⟨old, rfl, hturn⟩
  | none =>
    refine .inr ?_
    -- only a call has a caller where none was
    cases h with
    | call admits =>
      cases admits with
      | serve kept =>
        obtain rfl := eq_of_getElem?_join hold hcaller
        exact ⟨by simp, fun number hnumber => by simp at hnumber⟩
      | @share number status missing flying probe =>
        obtain rfl := eq_of_getElem?_join hold hcaller
        refine ⟨status.phase_ne_gaveUp, fun n hn => ⟨status, ?_, .inr (.inr rfl)⟩⟩
        obtain rfl : number = n := by simpa using hn
        exact probe
      | start missing idle =>
        obtain rfl := eq_of_getElem?_join hold hcaller
        refine ⟨by simp, fun n hn => ⟨.running, ?_, .inl rfl⟩⟩
        obtain rfl : state.probes.length = n := by simpa using hn
        exact (isProbe_launch ..).mpr (.inr ⟨rfl, rfl, rfl⟩)
    | leave other => simp [getElem?_abandon, hold] at hcaller
    | answer running found => simp [State.mark, hold] at hcaller
    | cancel running lost => simp [State.mark, hold] at hcaller
    | land probe ended => simp [getElem?_land, hold] at hcaller
    | missed ended => simp [hold] at hcaller
    | early running => simp [hold] at hcaller

theorem tied_run (sound : Sound state) (candidates : List String)
    (tied : ∀ caller ∈ state.callers, caller.Tied state) (events : List Event) :
    ∀ caller ∈ (run candidates state events).callers,
      caller.Tied (run candidates state events) := by
  induction events generalizing state with
  | nil => exact tied
  | cons event rest ih =>
    refine ih (sound.step candidates event) fun caller hmem => ?_
    obtain ⟨position, hcaller⟩ := List.mem_iff_getElem?.mp hmem
    have heffect := sound.effect candidates event
    rcases heffect.caller_of hcaller with ⟨old, hold, hturn⟩ | ⟨-, htied⟩
    · exact (tied old (List.mem_of_getElem? hold)).turn hturn heffect
    · exact htied

/-! ### Callbacks -/

/-- The callbacks of a probe have run: it has ended and is out of flight. -/
structure Landed (state : State) (number : Nat) (index : String) (status : Status) : Prop where
  probe : state.IsProbe number index status
  ended : status ≠ .running
  idle : ∀ other, state.inFlight.get? other ≠ some number

variable {number : Nat} {index : String} {status : Status}

theorem Sound.landed (sound : Sound state) (candidates : List String)
    (h : state.IsProbe number index status) (hended : status ≠ .running) :
    Landed (SingleFlight.step candidates state (.settle number)) number index status := by
  have heffect := sound.effect candidates (.settle number)
  generalize SingleFlight.step candidates state (.settle number) = after at heffect
  cases heffect with
  | land probe _ =>
    obtain ⟨rfl, rfl⟩ := h.unique probe
    exact ⟨h, hended, fun other hother => ((sound.get?_landed h other number).mp hother).2 rfl⟩
  | early running => exact absurd (running index status h) hended

/-- What is in flight was before, or is a new probe. -/
theorem Effect.inFlight (h : Effect candidates state event after)
    (hflight : after.inFlight.get? index = some number) :
    state.inFlight.get? index = some number ∨ number = state.probes.length := by
  cases h with
  | @call other _ admits =>
    cases admits with
    | serve kept => exact .inl hflight
    | share missing flying probe => exact .inl hflight
    | start missing idle =>
      rw [State.join, State.launch, Table.get?_put] at hflight
      split at hflight
      · exact .inr (by simpa [eq_comm] using hflight)
      · exact .inl hflight
  | leave other => exact .inl hflight
  | answer running found => exact .inl hflight
  | cancel running lost => exact .inl hflight
  | land probe ended =>
    rw [State.land] at hflight
    split at hflight
    · rw [Table.get?_remove] at hflight
      split at hflight
      · simp at hflight
      · exact .inl hflight
    · exact .inl hflight
  | missed ended => exact .inl hflight
  | early running => exact .inl hflight

theorem Landed.run (sound : Sound state) (h : Landed state number index status)
    (events : List Event) : Landed (run candidates state events) number index status := by
  induction events generalizing state with
  | nil => exact h
  | cons event rest ih =>
    have heffect := sound.effect candidates event
    obtain ⟨s, hs, hsame⟩ := heffect.isProbe h.probe
    refine ih (sound.step candidates event)
      ⟨hsame.resolve_left h.ended ▸ hs, h.ended, fun other hother => ?_⟩
    -- a probe that is started later has a greater number
    rcases heffect.inFlight hother with hflight | hnew
    · exact h.idle other hflight
    · exact absurd (List.getElem?_eq_some_iff.mp h.probe).1 (by omega)

/-- Nobody waits for a probe whose callbacks have run. -/
theorem Landed.phase (h : Landed state number index status) (sound : Sound state)
    (hmem : caller ∈ state.callers) (htied : caller.Tied state)
    (hprobe : caller.probe = some number) :
    caller.phase = .gaveUp ∨ caller.phase = status.phase := by
  obtain ⟨s, hs, hphase⟩ := htied number hprobe
  obtain ⟨-, rfl⟩ := h.probe.unique hs
  -- who waits, waits for a probe in flight
  refine hphase.resolve_left fun hwaits => ?_
  have hstanding := sound.standing caller hmem
  rw [Caller.Standing, hwaits] at hstanding
  obtain ⟨n, hn, hflight⟩ := hstanding
  obtain rfl : n = number := by simpa [hprobe, eq_comm] using hn
  exact h.idle _ hflight

/-! ### Callers that give up -/

/-- The caller at a position, if there is one, has not given up. -/
def State.Patient (state : State) (position : Nat) : Prop :=
  ∀ caller, state.callers[position]? = some caller → caller.phase ≠ .gaveUp

/-- A caller gives up by itself only. -/
theorem State.Patient.run (sound : Sound state) (h : state.Patient position) {events : List Event}
    (hevents : Event.giveUp position ∉ events) :
    (run candidates state events).Patient position := by
  induction events generalizing state with
  | nil => exact h
  | cons event rest ih =>
    rw [List.mem_cons, not_or] at hevents
    refine ih (sound.step candidates event) (fun caller hcaller => ?_) hevents.2
    rcases (sound.effect candidates event).caller_of hcaller with ⟨old, hold, hturn⟩ | ⟨hphase, -⟩
    · cases hturn with
      | stay => exact h caller hold
      | leave waits own => exact absurd own.symm hevents.1
      | @told number index status waits shares probe => exact status.phase_ne_gaveUp
    · exact hphase

/-- Who gives up while it waits has given up for good. -/
theorem callers_run_giveUp (sound : Sound state)
    (hcaller : state.callers[position]? = some caller) (hwaits : caller.phase = .waiting)
    (events : List Event) :
    (run candidates state (.giveUp position :: events)).callers[position]? =
      some { caller with phase := .gaveUp } := by
  refine callers_run_of_done (sound.step candidates (.giveUp position)) ?_ (by simp) events
  simp [step, getElem?_abandon, hcaller, Caller.leave, hwaits]

/-- Who waits for a probe that is not cancelled is served when it has ended and its callbacks have
run. -/
theorem Sound.told (sound : Sound state) (tied : ∀ caller ∈ state.callers, caller.Tied state)
    (hcaller : state.callers[position]? = some caller) (hwaits : caller.phase = .waiting)
    (hprobe : caller.probe = some number)
    (huncancelled : ¬ state.IsProbe number caller.index .cancelled) {outcome : Outcome}
    (houtcome : outcome ≠ .cancelled) :
    ∃ fields,
      (SingleFlight.run candidates state [.finish number outcome, .settle number]).cache.get?
        caller.index = some fields ∧
      (SingleFlight.run candidates state
        [.finish number outcome, .settle number]).callers[position]? =
          some { caller with phase := .served fields } := by
  obtain ⟨status, hstatus, -⟩ := tied caller (List.mem_of_getElem? hcaller) number hprobe
  obtain ⟨fields, hanswered⟩ := sound.exists_answered candidates hstatus
    (fun heq => huncancelled (heq ▸ hstatus)) houtcome
  have hlanded : Landed (SingleFlight.run candidates state [.finish number outcome, .settle number])
      number caller.index (.answered fields) :=
    (sound.step candidates _).landed candidates hanswered (by simp)
  have hafter := sound.run candidates [.finish number outcome, .settle number]
  obtain ⟨served, hserved, hsame⟩ := exists_caller_run sound candidates hcaller
    [.finish number outcome, .settle number]
  have hpatient : (SingleFlight.run candidates state
      [.finish number outcome, .settle number]).Patient position := by
    refine State.Patient.run sound (fun other hother => ?_) (by simp)
    obtain rfl : caller = other := by simpa [hcaller] using hother
    simp [hwaits]
  have hmem := List.mem_of_getElem? hserved
  have hphase : served.phase = .served fields :=
    (hlanded.phase hafter hmem (tied_run sound candidates tied _ served hmem)
      (by rw [hsame]; exact hprobe)).resolve_left (hpatient served hserved)
  have hstanding := hafter.standing served hmem
  rw [Caller.Standing, hphase, hsame] at hstanding
  refine ⟨fields, hstanding, ?_⟩
  rw [← hphase, ← hsame]
  exact hserved

/-- An event by which one of some callers gives up. -/
def Event.leaves (leaving : Nat → Bool) : Event → Bool
  | .giveUp position => leaving position
  | _ => false

/-- Two states that differ at most in what has become of some callers. -/
structure Alike (leaving : Nat → Bool) (state other : State) : Prop where
  cache : other.cache = state.cache
  inFlight : other.inFlight = state.inFlight
  probes : other.probes = state.probes
  length : other.callers.length = state.callers.length
  callers : ∀ position, leaving position = false →
    other.callers[position]? = state.callers[position]?

section Bystanders

variable {leaving : Nat → Bool} {other : State}

theorem Alike.append (h : Alike leaving state other) (newcomer : Caller) (position : Nat)
    (hstays : leaving position = false) :
    (other.callers ++ [newcomer])[position]? = (state.callers ++ [newcomer])[position]? := by
  rw [List.getElem?_append, List.getElem?_append, h.length, h.callers position hstays]

/-- An event does the same to the callers that stay. -/
theorem Alike.step (h : Alike leaving state other) (event : Event) :
    Alike leaving (step candidates state event) (step candidates other event) := by
  obtain ⟨cache, inFlight, probes, callers⟩ := other
  obtain ⟨rfl, rfl, rfl, hlength, hcallers⟩ := h
  have h : Alike leaving state { state with callers } := ⟨rfl, rfl, rfl, hlength, hcallers⟩
  -- the states differ in their callers only, which no event looks at before it branches
  cases event with
  | call index =>
    simp only [SingleFlight.step, ask, State.phaseOf]
    split
    · exact ⟨rfl, rfl, rfl, by simpa using hlength, h.append _⟩
    · split
      · exact ⟨rfl, rfl, rfl, by simpa using hlength, h.append _⟩
      · exact ⟨rfl, rfl, rfl, by simpa using hlength, h.append _⟩
  | giveUp position =>
    refine ⟨rfl, rfl, rfl, by simpa [SingleFlight.step, abandon] using hlength, fun i hi => ?_⟩
    simp only [SingleFlight.step, abandon, List.getElem?_modify]
    exact congrArg _ (hcallers i hi)
  | finish number outcome =>
    simp only [SingleFlight.step, finish]
    split
    · cases outcome.fields? candidates with
      | none => exact ⟨rfl, rfl, rfl, hlength, hcallers⟩
      | some fields => exact ⟨rfl, rfl, rfl, hlength, hcallers⟩
    · exact h
  | settle number =>
    simp only [SingleFlight.step, settle]
    split
    · exact h
    · exact h
    · refine ⟨rfl, rfl, rfl, by simpa using hlength, fun i hi => ?_⟩
      simp only [List.getElem?_map]
      exact congrArg _ (hcallers i hi)

/-- That a caller gives up is nothing to the others. -/
theorem Alike.abandon (h : Alike leaving state other) {position : Nat}
    (hleaves : leaving position = true) : Alike leaving (abandon state position) other := by
  refine ⟨h.cache, h.inFlight, h.probes, by simpa [SingleFlight.abandon] using h.length, ?_⟩
  intro i hi
  have hne : position ≠ i := by
    rintro rfl
    simp [hleaves] at hi
  simpa [SingleFlight.abandon, List.getElem?_modify, hne] using h.callers i hi

/-- Whether some callers give up or not, a run ends alike. -/
theorem Alike.run_filter (h : Alike leaving state other) (events : List Event) :
    Alike leaving (run candidates state events)
      (run candidates other (events.filter fun event => !event.leaves leaving)) := by
  induction events generalizing state other with
  | nil => exact h
  | cons event rest ih =>
    rw [List.filter_cons]
    split
    · exact ih (h.step event)
    · next hleaves =>
      cases event with
      | giveUp position => exact ih (h.abandon (by simpa [Event.leaves] using hleaves))
      | call index => simp [Event.leaves] at hleaves
      | finish number outcome => simp [Event.leaves] at hleaves
      | settle number => simp [Event.leaves] at hleaves

end Bystanders

/-! ### One probe for all callers -/

/-- Along a run every caller is attended to: it gets what is kept, or what its probe comes to. -/
structure Attended (candidates : List String) (events : List Event) (state : State) : Prop where
  /-- There is one caller for each call, in order. -/
  callers : state.callers.map (·.index) = asked events
  /-- A call is served what is kept, shares the probe in flight or starts one. -/
  admits : ∀ index, Admits state index (run candidates state [.call index])
  /-- Who shares a probe shares one of its index, and has come to what the probe has come to if it
  does not wait and has not given up. -/
  tied : ∀ caller ∈ state.callers, caller.Tied state
  /-- Who does not give up, and whose probe is not cancelled, has what is kept or waits for a probe
  that is in flight. -/
  served : ∀ (position : Nat) caller, state.callers[position]? = some caller →
    .giveUp position ∉ events →
    (∀ number, caller.probe = some number → ¬ state.IsProbe number caller.index .cancelled) →
    (∃ fields, caller.phase = .served fields ∧ state.cache.get? caller.index = some fields) ∨
    caller.phase = .waiting ∧
      ∃ number, caller.probe = some number ∧ state.inFlight.get? caller.index = some number
  /-- Who waits gets what is kept when the probe has ended and its callbacks have run. -/
  told : ∀ (position : Nat) caller number outcome, state.callers[position]? = some caller →
    caller.phase = .waiting → caller.probe = some number →
    ¬ state.IsProbe number caller.index .cancelled → outcome ≠ .cancelled →
    ∃ fields,
      (run candidates state [.finish number outcome, .settle number]).cache.get? caller.index =
        some fields ∧
      (run candidates state [.finish number outcome, .settle number]).callers[position]? =
        some { caller with phase := .served fields }
  /-- Once the callbacks of a probe that has ended have run, it is out of flight, and nobody who
  shares it waits any more: all who do not give up have come to what it has come to. -/
  settled : ∀ before number later, events = before ++ .settle number :: later →
    ∀ index status, (run candidates {} before).IsProbe number index status → status ≠ .running →
      Landed state number index status ∧
      ∀ (position : Nat) caller, state.callers[position]? = some caller →
        caller.probe = some number → .giveUp position ∉ events →
        status = .cancelled ∧ caller.phase = .cancelled ∨
        ∃ fields, status = .answered fields ∧ caller.phase = .served fields ∧
          state.cache.get? caller.index = some fields
  /-- Who gives up while it waits has given up for good. -/
  left : ∀ before position later, events = before ++ .giveUp position :: later →
    ∀ caller, (run candidates {} before).callers[position]? = some caller →
      caller.phase = .waiting → state.callers[position]? = some { caller with phase := .gaveUp }
  /-- Who does not wait any more stays as it is. -/
  lasts : ∀ (position : Nat) caller, state.callers[position]? = some caller →
    caller.phase ≠ .waiting → ∀ later, (run candidates state later).callers[position]? = some caller
  /-- Had some callers not given up, everything would be the same but what becomes of them. -/
  bystanders : ∀ leaving, Alike leaving state
    (run candidates {} (events.filter fun event => !event.leaves leaving))

theorem run_append (candidates : List String) (state : State) (before later : List Event) :
    run candidates state (before ++ later) = run candidates (run candidates state before) later :=
  List.foldl_append

/-- Nobody has given up who did not do so by itself. -/
theorem patient_run (candidates : List String) {events : List Event}
    (hstays : Event.giveUp position ∉ events) :
    (run candidates {} events).Patient position :=
  State.Patient.run Sound.initial (by simp [State.Patient]) hstays

theorem attended_run (candidates : List String) (events : List Event) :
    Attended candidates events (run candidates {} events) := by
  have sound : Sound (run candidates {} events) := Sound.initial.run candidates events
  have tied := tied_run Sound.initial candidates (by simp) events
  refine
    { callers := by simpa using callers_run Sound.initial events
      admits := sound.admits
      tied := tied
      served := fun position caller hcaller hstays huncancelled => ?_
      told := fun _ _ _ _ hcaller hwaits hprobe huncancelled houtcome =>
        sound.told tied hcaller hwaits hprobe huncancelled houtcome
      settled := fun before number later hevents index status hprobe hended => ?_
      left := fun before position later hevents caller hcaller hwaits => ?_
      lasts := fun _ _ hcaller hdone later => callers_run_of_done sound hcaller hdone later
      bystanders := fun leaving =>
        Alike.run_filter ⟨rfl, rfl, rfl, rfl, fun _ _ => rfl⟩ events }
  · have hpatient := patient_run candidates hstays
    have hstanding := sound.standing caller (List.mem_of_getElem? hcaller)
    rw [Caller.Standing] at hstanding
    cases hphase : caller.phase with
    | waiting =>
      rw [hphase] at hstanding
      exact .inr ⟨rfl, hstanding⟩
    | served fields =>
      rw [hphase] at hstanding
      exact .inl ⟨fields, rfl, hstanding⟩
    | cancelled =>
      rw [hphase] at hstanding
      obtain ⟨number, hprobe, hcancelled⟩ := hstanding
      exact absurd hcancelled (huncancelled number hprobe)
    | gaveUp => exact absurd hphase (hpatient caller hcaller)
  · have hbefore : Sound (run candidates {} before) := Sound.initial.run candidates before
    have hlanded : Landed (run candidates {} events) number index status := by
      rw [hevents, run_append]
      exact (hbefore.landed candidates hprobe hended).run (hbefore.step candidates _) later
    refine ⟨hlanded, fun position caller hcaller hshares hstays => ?_⟩
    have hmem := List.mem_of_getElem? hcaller
    have hphase := (hlanded.phase sound hmem (tied caller hmem) hshares).resolve_left
      (patient_run candidates hstays caller hcaller)
    have hstanding := sound.standing caller hmem
    cases status with
    | running => exact absurd rfl hended
    | cancelled => exact .inl ⟨rfl, hphase⟩
    | answered fields =>
      rw [Caller.Standing, hphase] at hstanding
      exact .inr ⟨fields, rfl, hphase, hstanding⟩
  · rw [hevents, run_append]
    exact callers_run_giveUp (Sound.initial.run candidates before) hcaller hwaits later

/-- However callers, probes and callbacks follow each other, every index is probed once, and every
caller gets what comes of it. -/
theorem single_flight (candidates : List String) (events : List Event) :
    ProbedOnce candidates events (run candidates {} events) ∧
      Attended candidates events (run candidates {} events) :=
  ⟨probedOnce_run candidates events, attended_run candidates events⟩

/-- Three callers share a probe of `a`, the first of them gives up, and the others are served. One
more is served at once. The probe of `b` is cancelled and so is its caller; the next one starts
another probe. -/
def sharedRun : List Event :=
  [.call "a", .call "a", .call "b", .call "a", .giveUp 0, .finish 0 .failed, .settle 0, .call "a",
    .finish 1 .cancelled, .settle 1, .call "b"]

theorem single_flight_sharedRun :
    (ProbedOnce ["space"] sharedRun (run ["space"] {} sharedRun) ∧
      Attended ["space"] sharedRun (run ["space"] {} sharedRun)) ∧
    (run ["space"] {} sharedRun).started = ["a", "b", "b"] ∧
    (run ["space"] {} sharedRun).callers =
      [⟨"a", some 0, .gaveUp⟩, ⟨"a", some 0, .served ⟨["space"], ["space"]⟩⟩,
        ⟨"b", some 1, .cancelled⟩, ⟨"a", some 0, .served ⟨["space"], ["space"]⟩⟩,
        ⟨"a", none, .served ⟨["space"], ["space"]⟩⟩, ⟨"b", some 2, .waiting⟩] :=
  ⟨single_flight ["space"] sharedRun, by decide, by decide⟩

end Lifecycle.SingleFlight
