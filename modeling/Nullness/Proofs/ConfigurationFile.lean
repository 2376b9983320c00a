import Nullness.Command.Run
import Nullness.Proofs.Tokens
import Mathlib.Data.List.TakeWhile

/-!
# Which configuration file a run uses

The arguments are read twice.  The flags are read from left to right up to the
first argument that is no flag, and the last of several flags of one name
counts.  Before that, the name of the configuration file is looked for among all
arguments, and there the first one counts, even behind the arguments that are no
flags.

The two agree unless the arguments name more than one file, or seem to name one
where flags are no longer read.  In any case, the settings of a run are the
defaults, changed by the file that was found first, changed by the flags.
-/

namespace Nullness
namespace Flags

/-! ## Reading the same arguments for two kinds of options -/

variable {σ τ : Type}

/-- The result of reading arguments, with other options. -/
def Result.map (φ : σ → τ) (r : Result σ) : Result τ :=
  ⟨φ r.options, r.rest, r.error⟩

/-- An action does to the images of options what another one does to the
options. -/
def Action.Carries (φ : σ → τ) : Action σ → Action τ → Prop
  | .switch set, .switch set' => ∀ b s, set' b (φ s) = φ (set b s)
  | .value set, .value set' => ∀ value s, set' value (φ s) = (set value s).map φ
  | _, _ => False

/-- A flag with the name of another one, that does to the images of options what
the other one does to the options. -/
structure Flag.Carries (φ : σ → τ) (flag : Flag σ) (flag' : Flag τ) : Prop where
  name : flag'.name = flag.name
  action : flag.action.Carries φ flag'.action

variable {φ : σ → τ} {flags : List (Flag σ)} {flags' : List (Flag τ)}

theorem Flag.Carries.switch {flag : Flag σ} {flag' : Flag τ}
    {set : Bool → σ → σ} (h : flag.Carries φ flag')
    (haction : flag.action = .switch set) :
    ∃ set', flag'.action = .switch set' ∧
      ∀ b s, set' b (φ s) = φ (set b s) := by
  have hcarries := h.action
  rw [haction] at hcarries
  cases haction' : flag'.action with
  | switch set' =>
      rw [haction'] at hcarries
      exact ⟨set', rfl, hcarries⟩
  | value set' =>
      rw [haction'] at hcarries
      exact hcarries.elim

theorem Flag.Carries.value {flag : Flag σ} {flag' : Flag τ}
    {set : Text → σ → Except Text σ} (h : flag.Carries φ flag')
    (haction : flag.action = .value set) :
    ∃ set', flag'.action = .value set' ∧
      ∀ value s, set' value (φ s) = (set value s).map φ := by
  have hcarries := h.action
  rw [haction] at hcarries
  cases haction' : flag'.action with
  | switch set' =>
      rw [haction'] at hcarries
      exact hcarries.elim
  | value set' =>
      rw [haction'] at hcarries
      exact ⟨set', rfl, hcarries⟩

theorem find?_of_carries (h : List.Forall₂ (Flag.Carries φ) flags flags')
    (name : Text) :
    (flags.find? (·.name = name) = none ∧ flags'.find? (·.name = name) = none) ∨
      ∃ flag flag', flags.find? (·.name = name) = some flag ∧
        flags'.find? (·.name = name) = some flag' ∧ flag.Carries φ flag' := by
  induction h with
  | nil => exact .inl ⟨rfl, rfl⟩
  | @cons flag flag' _ _ hflag _ ih =>
      rw [List.find?_cons, List.find?_cons, hflag.name]
      split
      · exact .inr ⟨flag, flag', rfl, rfl, hflag⟩
      · exact ih

/-- Arguments are read in the same way whatever the flags do to the options. -/
theorem parse_map (h : List.Forall₂ (Flag.Carries φ) flags flags')
    (arguments : List Text) (s : σ) :
    parse flags' arguments (φ s) = (parse flags arguments s).map φ := by
  have hcarried : ∀ {name : Text} {flag : Flag σ},
      flags.find? (·.name = name) = some flag →
        ∃ flag', flags'.find? (·.name = name) = some flag' ∧
          flag.Carries φ flag' := by
    intro name flag hfind
    rcases find?_of_carries h name with ⟨hnone, -⟩ |
      ⟨_, flag', hsome, hfind', hcarries⟩
    · rw [hfind] at hnone
      cases hnone
    · rw [hfind] at hsome
      cases hsome
      exact ⟨flag', hfind', hcarries⟩
  fun_induction parse flags arguments s with
  | case1 => rfl
  | case2 argument rest s hargument | case3 argument rest s hargument
  | case4 argument rest s hargument => simp only [parse, hargument, Result.map]
  | case5 argument rest s name value hargument hfind =>
      have hfind' : flags'.find? (·.name = name) = none := by
        rcases find?_of_carries h name with ⟨-, hnone⟩ | ⟨_, -, hsome, -⟩
        · exact hnone
        · rw [hfind] at hsome
          cases hsome
      simp only [parse, hargument, hfind', Result.map]
  | case6 argument rest s name flag hfind set haction hargument ih =>
      obtain ⟨flag', hfind', hcarries⟩ := hcarried hfind
      obtain ⟨set', haction', hset⟩ := hcarries.switch haction
      simp only [parse, hargument, hfind', haction', hset, ih]
  | case7 argument rest s name flag hfind set value haction b hb hargument ih =>
      obtain ⟨flag', hfind', hcarries⟩ := hcarried hfind
      obtain ⟨set', haction', hset⟩ := hcarries.switch haction
      simp only [parse, hargument, hfind', haction', hb, hset, ih]
  | case8 argument rest s name flag hfind set value haction hb hargument =>
      obtain ⟨flag', hfind', hcarries⟩ := hcarried hfind
      obtain ⟨set', haction', hset⟩ := hcarries.switch haction
      simp only [parse, hargument, hfind', haction', hb, hset, Result.map]
  | case9 argument rest s name flag hfind set value haction s' hs' hargument
    ih =>
      obtain ⟨flag', hfind', hcarries⟩ := hcarried hfind
      obtain ⟨set', haction', hset⟩ := hcarries.value haction
      simp only [parse, hargument, hfind', haction', hset, hs', Except.map, ih]
  | case10 argument rest s name flag hfind set value haction why hwhy
    hargument =>
      obtain ⟨flag', hfind', hcarries⟩ := hcarried hfind
      obtain ⟨set', haction', hset⟩ := hcarries.value haction
      simp only [parse, hargument, hfind', haction', hset, hwhy, Except.map,
        Result.map]
  | case11 argument s name flag hfind set haction hargument =>
      obtain ⟨flag', hfind', hcarries⟩ := hcarried hfind
      obtain ⟨set', haction', hset⟩ := hcarries.value haction
      simp only [parse, hargument, hfind', haction', Result.map]
  | case12 argument s name flag hfind set haction value rest s' hs' hargument
    ih =>
      obtain ⟨flag', hfind', hcarries⟩ := hcarried hfind
      obtain ⟨set', haction', hset⟩ := hcarries.value haction
      simp only [parse, hargument, hfind', haction', hset, hs', Except.map, ih]
  | case13 argument s name flag hfind set haction value rest why hwhy
    hargument =>
      obtain ⟨flag', hfind', hcarries⟩ := hcarried hfind
      obtain ⟨set', haction', hset⟩ := hcarries.value haction
      simp only [parse, hargument, hfind', haction', hset, hwhy, Except.map,
        Result.map]

/-! ## What an argument looks like -/

theorem splitValue_eq {b : UInt8} {rest name : Text} {value : Option Text}
    (hb : b ≠ byte '=') (h : splitValue b rest = (name, value)) :
    (Text.cut (byte '=') (b :: rest) = value.map fun v => (name, v)) ∧
      (value = none → b :: rest = name) := by
  rw [splitValue] at h
  split at h
  · rename_i before after hcut
    cases h
    obtain ⟨rfl, hbefore⟩ := Text.cut_eq_some_iff.mp hcut
    refine ⟨Text.cut_eq_some_iff.mpr ⟨rfl, ?_⟩, nofun⟩
    simpa [hb.symm] using hbefore
  · rename_i hcut
    cases h
    refine ⟨Text.cut_eq_none_iff.mpr ?_, fun _ => rfl⟩
    simpa [hb.symm] using Text.cut_eq_none_iff.mp hcut

theorem named_eq_flag {t name : Text} {value : Option Text}
    (h : Argument.named t = .flag name value) :
    t.dropWhile (· == byte '-') = t ∧
      (Text.cut (byte '=') t = value.map fun v => (name, v)) ∧
      (value = none → t = name) := by
  cases t with
  | nil => cases h
  | cons b rest =>
      rw [Argument.named] at h
      split_ifs at h with hb
      simp only [Bool.or_eq_true, decide_eq_true_eq, not_or] at hb
      cases hsplit : splitValue b rest with
      | mk name' value' =>
          simp only [hsplit] at h
          cases h
          exact ⟨by simp [hb.1], splitValue_eq hb.2 hsplit⟩

/-- The name of a flag and its value are what follows the dashes. -/
theorem ofText_eq_flag {argument name : Text} {value : Option Text}
    (h : Argument.ofText argument = .flag name value) :
    argument ≠ text "--" ∧ argument.head? = some (byte '-') ∧
      (Text.cut (byte '=') (argument.dropWhile (· == byte '-')) =
        value.map fun v => (name, v)) ∧
      (value = none → argument.dropWhile (· == byte '-') = name) := by
  have hdash : ∀ t : Text,
      (byte '-' :: t).dropWhile (· == byte '-') = t.dropWhile (· == byte '-') :=
    fun t => List.dropWhile_cons_of_pos (by simp)
  unfold Argument.ofText at h
  split at h
  · rename_i first second rest
    split_ifs at h with hfirst hsecond hrest
    · obtain rfl : first = byte '-' := not_not.mp hfirst
      obtain ⟨hdrop, hcut, hname⟩ := named_eq_flag h
      rw [hdash, hdrop]
      refine ⟨fun heq => hsecond ?_, rfl, hcut, hname⟩
      exact (List.cons.inj (List.cons.inj heq).2).1
    · obtain rfl : first = byte '-' := not_not.mp hfirst
      obtain rfl : second = byte '-' := not_not.mp hsecond
      obtain ⟨hdrop, hcut, hname⟩ := named_eq_flag h
      rw [hdash, hdash, hdrop]
      refine ⟨fun heq => hrest ?_, rfl, hcut, hname⟩
      rw [(List.cons.inj (List.cons.inj heq).2).2]
      rfl
  · cases h

end Flags

namespace Command

/-! ## The flags that are given -/

/-- What the flags of a command line say: the names of configuration files in
the order in which they are given, and for the others the last value, if there
is one. -/
structure Given where
  configs : List Text := []
  debug : Option Bool := none
  dump : Option Bool := none
  unannotated : Option Nullability := none
  deriving DecidableEq, Repr

namespace Given

/-- The flags of the command line, with the only effect that they are
remembered. -/
def flags : List (Flags.Flag Given) := [
  { name := configName
    summary := []
    action := .value fun path g =>
      .ok { g with configs := g.configs ++ [path] } },
  { name := text "debug"
    summary := []
    action := .switch fun b g => { g with debug := some b } },
  { name := Settings.dumpName
    summary := []
    action := .switch fun b g => { g with dump := some b } },
  { name := Settings.unannotatedName
    summary := []
    action := .value fun name g =>
      match readAssumption name with
      | .ok n => .ok { g with unannotated := some n }
      | .error e => .error e.message }]

/-- The options that result from defaults and the given flags.  Of several names
of configuration files, the last one counts. -/
def options (defaults : Settings) (g : Given) : Options where
  settings :=
    { unannotated := g.unannotated.getD defaults.unannotated
      dump := g.dump.getD defaults.dump }
  config := g.configs.getLast?.getD []
  debug := g.debug.getD false

theorem carries_flags (defaults : Settings) :
    List.Forall₂ (Flags.Flag.Carries (options defaults)) flags
      (Command.flags defaults) := by
  refine .cons ⟨rfl, ?_⟩
    (.cons ⟨rfl, ?_⟩ (.cons ⟨rfl, ?_⟩ (.cons ⟨rfl, ?_⟩ .nil)))
  · intro path g
    simp [options, Except.map]
  · intro b g
    rfl
  · intro b g
    rfl
  · intro name g
    change (match readAssumption name with | .ok n => _ | .error e => _) =
      Except.map _ (match readAssumption name with | .ok n => _ | .error e => _)
    cases readAssumption name <;> rfl

/-- The flags of the command line do to the options what they say. -/
theorem parse_flags (defaults : Settings) (arguments : List Text) :
    Flags.parse (Command.flags defaults) arguments { settings := defaults } =
      (Flags.parse flags arguments {}).map (options defaults) :=
  Flags.parse_map (carries_flags defaults) arguments {}

/-- The configuration file that the flags ask for: the last one that they name,
else the default file if it exists, else none. -/
def configFile (g : Given) (files : Files) : Text :=
  match g.configs.getLast? with
  | some path => path
  | none => if files.has defaultFile then defaultFile else []

end Given

/-! ## The search among all arguments -/

/-- An argument that looks like the flag for the configuration file, with any
number of dashes and with or without a value. -/
def NamesConfig (argument : Text) : Prop :=
  argument.head? = some (byte '-') ∧
    (argument.dropWhile (· == byte '-')).takeWhile (· != byte '=') = configName

theorem configChoice_cons (argument : Text) (rest : List Text) :
    configChoice (argument :: rest) =
      if argument = text "--" then .unnamed
      else if argument.head? ≠ some (byte '-') then configChoice rest
      else match Text.cut (byte '=') (argument.dropWhile (· == byte '-')) with
        | some (before, value) =>
          if before = configName then .named value else configChoice rest
        | none =>
          if argument.dropWhile (· == byte '-') ≠ configName
            then configChoice rest
          else match rest with
            | [] => .noValue
            | value :: _ => .named value :=
  configChoice.eq_def (argument :: rest)

theorem configChoice_cons_of_flag {argument name : Text} {value : Option Text}
    (h : Flags.Argument.ofText argument = .flag name value) (rest : List Text) :
    configChoice (argument :: rest) =
      if name = configName then
        match value, rest with
        | some path, _ => .named path
        | none, path :: _ => .named path
        | none, [] => .noValue
      else configChoice rest := by
  obtain ⟨hend, hdash, hcut, hname⟩ := Flags.ofText_eq_flag h
  rw [configChoice_cons, if_neg hend, if_neg (not_not.mpr hdash), hcut]
  cases value with
  | some path => rfl
  | none =>
      rw [hname rfl]
      by_cases hconfig : name = configName
      · rw [if_pos hconfig]
        cases rest <;> exact if_neg (not_not.mpr hconfig)
      · rw [if_neg hconfig]
        exact if_pos hconfig

theorem configChoice_cons_of_not_dash {argument : Text} (rest : List Text)
    (h : argument.head? ≠ some (byte '-')) :
    configChoice (argument :: rest) = configChoice rest := by
  have hend : argument ≠ text "--" := by
    rintro rfl
    exact h rfl
  rw [configChoice_cons, if_neg hend, if_pos h]

/-- The names of nullabilities do not start with a dash. -/
theorem head?_ne_dash_of_readAssumption {name : Text} {n : Nullability}
    (h : readAssumption name = .ok n) : name.head? ≠ some (byte '-') := by
  intro hdash
  obtain ⟨rest, rfl⟩ := List.head?_eq_some_iff.mp hdash
  have hname : Nullability.ofName? (byte '-' :: rest) = none := by
    rw [Nullability.ofName?, List.find?_eq_none]
    intro n hn hmatches
    have hfold : Text.fold (byte '-' :: rest) = byte '-' :: Text.fold rest :=
      rfl
    have hheads : ∀ n ∈ Nullability.named, (Text.fold n.name).head? ≠
        some (byte '-') := by
      decide
    rw [Text.matchesName, beq_iff_eq, hfold] at hmatches
    apply hheads n hn
    rw [← hmatches]
    rfl
  rw [readAssumption, hname] at h
  cases h

theorem takeWhile_ne_eq_cut (sep : UInt8) (t : Text) :
    t.takeWhile (· != sep) = match Text.cut sep t with
      | some (before, _) => before
      | none => t := by
  split
  · rename_i before after hcut
    obtain ⟨rfl, hsep⟩ := Text.cut_eq_some_iff.mp hcut
    rw [List.takeWhile_append_of_pos]
    · simp
    · intro b hb
      simpa using ne_of_mem_of_not_mem hb hsep
  · rename_i hcut
    rw [List.takeWhile_eq_self_iff]
    intro b hb
    simpa using ne_of_mem_of_not_mem hb (Text.cut_eq_none_iff.mp hcut)

/-- Nothing is found exactly if no argument up to two dashes that stand alone
looks like the flag. -/
theorem configChoice_eq_unnamed_iff (arguments : List Text) :
    configChoice arguments = .unnamed ↔
      ∀ argument ∈ arguments.takeWhile (· ≠ text "--"),
        ¬ NamesConfig argument := by
  induction arguments with
  | nil => simp [configChoice]
  | cons argument rest ih =>
      by_cases hend : argument = text "--"
      · rw [configChoice_cons, if_pos hend,
          List.takeWhile_cons_of_neg (by simp [hend])]
        simp
      rw [List.takeWhile_cons_of_pos (by simp [hend]), List.forall_mem_cons,
        ← ih]
      by_cases hdash : argument.head? = some (byte '-')
      · rw [configChoice_cons, if_neg hend, if_neg (not_not.mpr hdash),
          NamesConfig, takeWhile_ne_eq_cut]
        cases hcut :
          Text.cut (byte '=') (argument.dropWhile (· == byte '-')) with
        | some parts =>
            by_cases hname : parts.1 = configName <;> simp [hdash, hname]
        | none =>
            by_cases hname : argument.dropWhile (· == byte '-') = configName
            · cases rest <;> simp [hdash, hname]
            · simp [hdash, hname]
      · rw [configChoice_cons_of_not_dash rest hdash]
        simp [NamesConfig, hdash]

/-! ## The first name among the flags -/

namespace Given

/-- An action that names no configuration file and takes no value that looks
like a flag. -/
def NamesNoConfig : Flags.Action Given → Prop
  | .switch set => ∀ b g, (set b g).configs = g.configs
  | .value set => ∀ value g g', set value g = .ok g' →
      g'.configs = g.configs ∧ value.head? ≠ some (byte '-')

theorem flag_cases {name : Text} {flag : Flags.Flag Given}
    (h : flags.find? (·.name = name) = some flag) :
    (name = configName ∧
      flag.action = .value fun path g =>
        .ok { g with configs := g.configs ++ [path] }) ∨
      name ≠ configName ∧ NamesNoConfig flag.action := by
  have hname : flag.name = name := by simpa using List.find?_some h
  have hmem := List.mem_of_find?_eq_some h
  simp only [flags, List.mem_cons, List.not_mem_nil, or_false] at hmem
  obtain rfl | rfl | rfl | rfl := hmem
  · exact .inl ⟨hname.symm, rfl⟩
  · exact .inr ⟨by rw [← hname]; decide, fun _ _ => rfl⟩
  · exact .inr ⟨by rw [← hname]; decide, fun _ _ => rfl⟩
  · refine .inr ⟨by rw [← hname]; decide, fun value g g' hset => ?_⟩
    cases hread : readAssumption value with
    | ok n =>
        simp only [hread] at hset
        cases hset
        exact ⟨rfl, head?_ne_dash_of_readAssumption hread⟩
    | error e =>
        simp only [hread] at hset
        cases hset

/-- The first name that the flags add is the one that the search finds. -/
theorem exists_configs_of_parse {arguments rest : List Text} {g g' : Given}
    (h : Flags.parse flags arguments g = ⟨g', rest, none⟩) :
    ∃ added, g'.configs = g.configs ++ added ∧
      ∀ path, added.head? = some path →
      configChoice arguments = .named path := by
  fun_induction Flags.parse flags arguments g with
  | case1 | case2 | case3 =>
      cases h
      exact ⟨[], by simp, nofun⟩
  | case4 | case5 | case8 | case10 | case11 | case13 => cases h
  -- A switch names no file, and the search passes over it as the reader does.
  | case6 argument rest g name flag hfind set haction hargument ih
  | case7 argument rest g name flag hfind set _ haction b _ hargument ih =>
      obtain ⟨-, hvalue⟩ | ⟨hname, hnone⟩ := flag_cases hfind
      · rw [haction] at hvalue
        cases hvalue
      · rw [haction] at hnone
        obtain ⟨added, hadded, hfirst⟩ := ih h
        rw [configChoice_cons_of_flag hargument, if_neg hname]
        exact ⟨added, by rw [hadded, hnone], hfirst⟩
  | case9 argument rest g name flag hfind set value haction next hset hargument
    ih =>
      obtain ⟨added, hadded, hfirst⟩ := ih h
      obtain ⟨hname, hvalue⟩ | ⟨hname, hnone⟩ := flag_cases hfind
      · rw [haction] at hvalue
        cases hvalue
        cases hset
        rw [configChoice_cons_of_flag hargument, if_pos hname]
        exact ⟨value :: added, by simpa using hadded, fun path hpath => by
          cases hpath; rfl⟩
      · rw [haction] at hnone
        rw [configChoice_cons_of_flag hargument, if_neg hname]
        exact ⟨added, by rw [hadded, (hnone value g next hset).1], hfirst⟩
  | case12 argument g name flag hfind set haction value rest next hset hargument
    ih =>
      obtain ⟨added, hadded, hfirst⟩ := ih h
      obtain ⟨hname, hvalue⟩ | ⟨hname, hnone⟩ := flag_cases hfind
      · rw [haction] at hvalue
        cases hvalue
        cases hset
        rw [configChoice_cons_of_flag hargument, if_pos hname]
        exact ⟨value :: added, by simpa using hadded, fun path hpath => by
          cases hpath; rfl⟩
      -- The reader takes the value together with its flag; the search looks at
      -- it, but without a dash it looks like no flag.
      · rw [haction] at hnone
        obtain ⟨hconfigs, hdash⟩ := hnone value g next hset
        rw [configChoice_cons_of_flag hargument, if_neg hname,
          configChoice_cons_of_not_dash rest hdash]
        exact ⟨added, by rw [hadded, hconfigs], hfirst⟩

end Given

/-! ## The configuration of a run -/

theorem configPath_of_configs {arguments rest : List Text} {given : Given}
    (h : Flags.parse Given.flags arguments {} = ⟨given, rest, none⟩)
    {path : Text} (hpath : given.configs.head? = some path) (files : Files) :
    configPath files arguments = .ok path := by
  obtain ⟨added, hadded, hfirst⟩ := Given.exists_configs_of_parse h
  have hchoice := hfirst path (by rwa [← List.nil_append added, ← hadded])
  rw [configPath, hchoice]

/-- Without a name, the search always finds the default file, or none, only if
nothing looks like the flag: no single name is right whether or not the default
file exists. -/
theorem configPath_eq_default_iff (arguments : List Text) :
    (∀ files, configPath files arguments =
      .ok (if Files.has files defaultFile then defaultFile else [])) ↔
      configChoice arguments = .unnamed := by
  constructor
  · intro h
    -- A name that is found does not depend on the files, but the default does.
    have hpresent := h fun _ => .ok []
    have hmissing := h fun _ => .error .missing
    cases hchoice : configChoice arguments with
    | unnamed => rfl
    | noValue =>
        rw [configPath, hchoice] at hpresent
        cases hpresent
    | named path =>
        rw [configPath, hchoice] at hpresent hmissing
        have hsame := hpresent.symm.trans hmissing
        exact absurd (Except.ok.inj hsame) (by decide)
  · intro h files
    rw [configPath, h]

/-- Let the flags of a command line be without mistakes.  Then the run takes the
first of the configuration files that they name, although for the flags the last
one counts.  The two are the same for every content of the file system if and
only if the first name is the last one and, without a name, no other argument
looks like the flag.

The settings of the run are those of the configuration file that is taken, with
the initial settings as defaults, and then those of the flags. -/
theorem run_configuration (arguments : List Text)
    (h : (Flags.parse (flags {}) arguments { settings := {} }).error = none) :
    ∃ (given : Given) (rest : List Text),
      Flags.parse Given.flags arguments {} = ⟨given, rest, none⟩ ∧
      (∀ defaults,
        Flags.parse (flags defaults) arguments { settings := defaults } =
          ⟨given.options defaults, rest, none⟩) ∧
      (∀ files path, given.configs.head? = some path →
        configPath files arguments = .ok path) ∧
      ((∀ files, configPath files arguments = .ok (given.configFile files)) ↔
        given.configs.head? = given.configs.getLast? ∧
          (given.configs = [] →
            ∀ argument ∈ arguments.takeWhile (· ≠ text "--"),
              ¬ NamesConfig argument)) ∧
      ∀ decode files path, configPath files arguments = .ok path →
        run decode files arguments =
          match loadDefaults decode files path with
          | .error e => some { error := some (.settings e) }
          | .ok defaults =>
            runFiles files path (given.options defaults) rest := by
  cases hparse : Flags.parse Given.flags arguments {} with
  | mk given rest error =>
      rw [Given.parse_flags, hparse] at h
      obtain rfl : error = none := h
      have hflags : ∀ defaults,
          Flags.parse (flags defaults) arguments { settings := defaults } =
            ⟨given.options defaults, rest, none⟩ := by
        intro defaults
        rw [Given.parse_flags, hparse]
        rfl
      refine ⟨given, rest, rfl, hflags, fun files path hpath =>
        configPath_of_configs hparse hpath files, ?_, ?_⟩
      · cases hconfigs : given.configs with
        | nil =>
            simp only [Given.configFile, hconfigs, List.getLast?_nil,
              List.head?_nil, true_and, forall_const]
            rw [configPath_eq_default_iff, configChoice_eq_unnamed_iff]
        | cons path paths =>
            have hlast : ∀ files, given.configFile files =
                (path :: paths).getLast (by simp) := by
              intro files
              rw [Given.configFile, hconfigs,
                List.getLast?_eq_getLast_of_ne_nil (by simp)]
            have hhead : given.configs.head? = some path := by
              rw [hconfigs]
              rfl
            have hfirst := configPath_of_configs hparse hhead
            simp [hlast, hfirst, List.getLast?_eq_getLast_of_ne_nil]
      · intro decode files path hpath
        rw [run, hpath]
        dsimp only
        cases loadDefaults decode files path with
        | error e => rfl
        | ok defaults => simp only [hflags]

/-- A command line that names two configuration files. -/
def twoConfigs : List Text :=
  [text "-config", text "a.toml", text "-config", text "b.toml", text "t.j"]

/-- Of two files, the flags name the second one, and the first one is taken. -/
theorem twoConfigs_configuration :
    (Flags.parse (flags {}) twoConfigs { settings := {} }).options.config =
      text "b.toml" ∧
      ∀ files, configPath files twoConfigs = .ok (text "a.toml") := by
  obtain ⟨given, rest, hgiven, hflags, hfirst, -, -⟩ :=
    run_configuration twoConfigs (by decide +kernel)
  have hconfigs : given.configs = [text "a.toml", text "b.toml"] := by
    have hoptions := congrArg (·.options.configs) hgiven
    rw [← hoptions]
    decide +kernel
  constructor
  · rw [hflags, Given.options, hconfigs]
    rfl
  · intro files
    apply hfirst
    rw [hconfigs]
    rfl

end Command
end Nullness
