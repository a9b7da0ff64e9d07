import Mathlib.Data.List.Basic
import Lifecycle.Console.Arguments

/-!
# Options of command lines

A command line is a command with its options behind the common ones (`Console.of_parse`). An option
that counts as given was in one of the arguments (`Console.asked_of_readAll`), and one that takes no
value is there by its name or a beginning of it (`Console.of_longKind`). So a promotion counts as
confirmed only where an argument says so (`Console.confirming_of_parse`).
-/

namespace Lifecycle.Console

/-- Two steps, one behind the other, come to a value where both do. -/
theorem bind_eq_ok_iff {ε α β : Type} {first : Except ε α} {next : α → Except ε β} {found : β} :
    (first >>= next) = .ok found ↔ ∃ value, first = .ok value ∧ next value = .ok found := by
  cases first <;> simp [bind, Except.bind]

/-! ### Options that are given -/

/-- The options of the command that promotes. -/
def promoteOptions : List OptionSpec := [⟨"--space", true⟩, ⟨"--only", true⟩, ⟨"--yes", false⟩]

/-- An option of a name is in one of some arguments; one that takes no value has none. -/
def Asked (options : List OptionSpec) (arguments : List String) (name : String) : Prop :=
  ∃ argument ∈ arguments, ∃ option value, kindOf options argument = .known option value ∧
    option.name = name ∧ (option.takesValue = false → value = none)

variable {options : List OptionSpec} {arguments later rest : List String} {given found : Given}

theorem Asked.mono {name : String} (h : Asked options later name) (hlater : later ⊆ arguments) :
    Asked options arguments name := by
  obtain ⟨argument, hargument, hasked⟩ := h
  exact ⟨argument, hlater hargument, hasked⟩

/-- Options that are read: beside those that were given before there are those of the arguments. -/
structure Collects (options : List OptionSpec) (arguments rest : List String)
    (given found : Given) : Prop where
  rest : rest ⊆ arguments
  found : ∀ entry ∈ found, entry ∈ given ∨ Asked options arguments entry.1

theorem Collects.mono (h : Collects options later rest given found) (hlater : later ⊆ arguments) :
    Collects options arguments rest given found where
  rest := List.Subset.trans h.rest hlater
  found entry hentry := (h.found entry hentry).imp_right (·.mono hlater)

/-- One more option in front of those that are read. -/
theorem Collects.cons {name value : String}
    (h : Collects options later rest (given ++ [(name, value)]) found) (hlater : later ⊆ arguments)
    (hasked : Asked options arguments name) : Collects options arguments rest given found where
  rest := List.Subset.trans h.rest hlater
  found entry hentry := by
    rcases h.found entry hentry with hgiven | hlast
    · rcases List.mem_append.mp hgiven with hgiven | hname
      · exact .inl hgiven
      · rw [List.mem_singleton.mp hname]
        exact .inr hasked
    · exact .inr (hlast.mono hlater)

theorem collects_readOptions {extra more : Bool}
    (h : readOptions options arguments given extra = .ok (found, rest, more)) :
    Collects options arguments rest given found := by
  -- each argument that is an option adds one; the cases that end in a refusal come last
  fun_induction readOptions options arguments given extra with
  | case1 given extra =>
    cases h
    exact ⟨List.Subset.refl _, fun entry hentry => .inl hentry⟩
  | case2 argument tail given extra hkind =>
    cases h
    exact ⟨List.Subset.refl _, fun entry hentry => .inl hentry⟩
  | case7 argument tail given extra hkind ih => exact (ih h).mono (List.subset_cons_self _ _)
  | case8 argument tail given extra option value hkind htakes ih =>
    refine (ih h).cons (List.subset_cons_self _ _) ⟨argument, List.mem_cons_self, option, _, hkind,
      rfl, fun hnone => ?_⟩
    rw [htakes] at hnone
    cases hnone
  | case10 argument given extra option hkind htakes value tail hplain ih =>
    exact (ih h).cons (fun other hother => List.mem_cons_of_mem _ (List.mem_cons_of_mem _ hother))
      ⟨argument, List.mem_cons_self, option, _, hkind, rfl, fun _ => rfl⟩
  | case13 argument tail given extra option hkind htakes ih =>
    exact (ih h).cons (List.subset_cons_self _ _) ⟨argument, List.mem_cons_self, option, _, hkind,
      rfl, fun _ => rfl⟩
  | case3 | case4 | case5 | case6 | case9 | case11 | case12 => cases h

/-- The options of a command are those of its arguments. -/
theorem asked_of_readAll {fuel : Nat} {extra : Bool}
    (h : readAll options fuel arguments given extra = .ok found) :
    ∀ entry ∈ found, entry ∈ given ∨ Asked options arguments entry.1 := by
  induction fuel generalizing arguments given extra with
  | zero => cases h
  | succ fuel ih =>
    rw [readAll] at h
    obtain ⟨⟨next, rest, more⟩, hread, h⟩ := bind_eq_ok_iff.mp h
    have hcollects := collects_readOptions hread
    cases rest with
    | nil =>
      dsimp only at h
      split_ifs at h
      cases h
      exact hcollects.found
    | cons plain rest =>
      intro entry hentry
      rcases ih h entry hentry with hnext | hasked
      · exact hcollects.found entry hnext
      · exact .inr (hasked.mono (List.Subset.trans (List.subset_cons_self _ _) hcollects.rest))

theorem of_knownKind {option shown : OptionSpec} {value given : Option String}
    (h : knownKind option value = .known shown given) : shown = option ∧ given = value := by
  rw [knownKind] at h
  split_ifs at h
  cases h
  exact ⟨rfl, rfl⟩

theorem splitValue_none {argument name : String} (h : splitValue argument = (name, none)) :
    name = argument := by
  rw [splitValue] at h
  split at h
  · cases h
  · exact (Prod.mk.inj h).1.symm

/-- An argument that is an option without a value is a beginning of its name. -/
theorem of_longKind {argument : String} {option : OptionSpec} {value : Option String}
    (h : longKind options argument = .known option value) :
    option ∈ options ∧ (value = none → argument.toList <+: option.name.toList) := by
  rw [longKind] at h
  split at h
  · rename_i found hfind
    obtain ⟨rfl, rfl⟩ := of_knownKind h
    have hname := List.find?_some hfind
    rw [beq_iff_eq] at hname
    exact ⟨List.mem_of_find?_eq_some hfind, fun _ => hname ▸ List.prefix_refl _⟩
  · rcases hsplit : splitValue argument with ⟨name, found⟩
    rw [hsplit] at h
    dsimp only at h
    split at h
    · rename_i known hfind
      obtain ⟨rfl, rfl⟩ := of_knownKind h
      have hname := List.find?_some hfind
      rw [beq_iff_eq] at hname
      refine ⟨List.mem_of_find?_eq_some hfind, ?_⟩
      rintro rfl
      exact hname.trans (splitValue_none hsplit) ▸ List.prefix_refl _
    · split at h
      · split_ifs at h
      · rename_i known hfilter
        obtain ⟨rfl, rfl⟩ := of_knownKind h
        obtain ⟨hmem, hbegins⟩ := List.mem_filter.mp (hfilter ▸ List.mem_singleton_self option)
        refine ⟨hmem, ?_⟩
        rintro rfl
        rwa [splitValue_none hsplit, List.isPrefixOf_iff_prefix] at hbegins
      · cases h

theorem of_kindOf {argument : String} {option : OptionSpec} {value : Option String}
    (h : kindOf options argument = .known option value) :
    longKind (helpOption :: options) argument = .known option value ∧
      2 < argument.toList.length := by
  rw [kindOf] at h
  split at h
  · cases h
  · rename_i rest hnone hlist
    refine ⟨h, ?_⟩
    rw [hlist]
    cases rest with
    | nil => exact absurd rfl hnone
    | cons c rest => simp
  · rw [shortHelpKind] at h
    split at h <;> cases h
  · split_ifs at h
  · cases h

/-- A promotion is confirmed by an argument: `--yes`, or a beginning of it that has more than its
dashes. -/
def Confirming (argument : String) : Prop :=
  2 < argument.toList.length ∧ argument.toList <+: "--yes".toList

theorem confirming_of_asked (h : Asked promoteOptions arguments "--yes") :
    ∃ argument ∈ arguments, Confirming argument := by
  obtain ⟨argument, hargument, option, value, hkind, hname, hvalue⟩ := h
  obtain ⟨hlong, hlength⟩ := of_kindOf hkind
  obtain ⟨hoption, hbegins⟩ := of_longKind hlong
  have hflag : ∀ option ∈ helpOption :: promoteOptions, option.name = "--yes" →
      option.takesValue = false := by decide
  refine ⟨argument, hargument, hlength, ?_⟩
  rw [← hname]
  exact hbegins (hvalue (hflag option hoption hname))

theorem mem_of_value? {name : String} (h : (given.value? name).isSome) :
    ∃ entry ∈ given, entry.1 = name := by
  rw [Given.value?, Option.isSome_map, List.find?_isSome] at h
  obtain ⟨entry, hentry, hname⟩ := h
  exact ⟨entry, List.mem_reverse.mp hentry, beq_iff_eq.mp hname⟩

/-- A command line is a command with its options behind those of the console. -/
theorem of_parse {invocation : Invocation} (h : parse arguments = .ok invocation) :
    ∃ common name rest options given,
      readOptions commonOptions arguments [] false = .ok (common, name :: rest, false) ∧
        commandOptions? name = some options ∧
          readAll options (rest.length + 1) rest [] false = .ok given ∧
            command name given = .ok invocation.command := by
  rw [parse] at h
  obtain ⟨_, -, h⟩ := bind_eq_ok_iff.mp h
  obtain ⟨⟨common, rest, extra⟩, hcommon, h⟩ := bind_eq_ok_iff.mp h
  cases rest with
  | nil => cases h
  | cons name rest =>
    dsimp only at h
    cases hoptions : commandOptions? name with
    | none =>
      rw [hoptions] at h
      cases h
    | some options =>
      rw [hoptions] at h
      obtain ⟨_, -, h⟩ := bind_eq_ok_iff.mp h
      obtain ⟨given, hgiven, h⟩ := bind_eq_ok_iff.mp h
      obtain ⟨found, hfound, h⟩ := bind_eq_ok_iff.mp h
      cases extra with
      | true => cases h
      | false =>
        cases h
        exact ⟨common, name, rest, options, given, hcommon, hoptions, hgiven, hfound⟩

/-- A promotion is confirmed where the option for that was given. -/
theorem of_command {name space only : String} {confirmed : Bool}
    (h : command name given = .ok (.promote space only confirmed)) :
    name = "promote" ∧ confirmed = (given.value? "--yes").isSome := by
  unfold command at h
  split at h
  · cases h
  · obtain ⟨_, -, h⟩ := bind_eq_ok_iff.mp h
    cases h
  · obtain ⟨_, -, h⟩ := bind_eq_ok_iff.mp h
    cases h
    exact ⟨rfl, rfl⟩
  · obtain ⟨_, -, h⟩ := bind_eq_ok_iff.mp h
    cases h
  · obtain ⟨_, -, h⟩ := bind_eq_ok_iff.mp h
    obtain ⟨_, -, h⟩ := bind_eq_ok_iff.mp h
    cases h
  · cases h

/-- A command line that promotes without asking has an argument that says so. -/
theorem confirming_of_parse {apiUrl space only : String}
    (h : parse arguments = .ok ⟨apiUrl, .promote space only true⟩) :
    ∃ argument ∈ arguments, Confirming argument := by
  obtain ⟨common, name, rest, options, given, hcommon, hoptions, hgiven, hcommand⟩ := of_parse h
  obtain ⟨rfl, hconfirmed⟩ := of_command hcommand
  obtain rfl : promoteOptions = options := Option.some.inj hoptions
  obtain ⟨entry, hentry, hname⟩ := mem_of_value? hconfirmed.symm
  rcases asked_of_readAll hgiven entry hentry with hnone | hasked
  · cases hnone
  · rw [hname] at hasked
    exact confirming_of_asked (hasked.mono
      (List.Subset.trans (List.subset_cons_self _ _) (collects_readOptions hcommon).rest))

end Lifecycle.Console
