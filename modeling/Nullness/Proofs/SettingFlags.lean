import Nullness.Proofs.ConfigurationFile

/-!
# The flags for the settings, one after another

Arguments start with flags that are right, each in one of its spellings, and
then either the flags end or there is a mistake.  Here this is said about the
arguments alone (`SpellsAll`, `Mistake`, `Ends`), and every list of arguments is
of this form.

Reading the arguments does what the flags before the mistake say, in their order
(`parse_of_failsAfter`).  The mistake itself does nothing to the settings, with
one exception: a value for frames that is no truth value counts as false.
-/

namespace Nullness
namespace Flags

/-! ## The spellings of a flag -/

/-- What a flag starts with: one dash or two. -/
def dashes : List Text := [text "-", text "--"]

/-- A flag as an argument, with the value that it has after an equals sign. -/
def spelling (lead name : Text) : Option Text → Text
  | none => lead ++ name
  | some value => lead ++ (name ++ byte '=' :: value)

/-- A name that a flag can have: it is not empty, does not start with a dash,
and has no equals sign. -/
def IsName : Text → Prop
  | [] => False
  | b :: rest => b ≠ byte '-' ∧ byte '=' ∉ b :: rest

instance : DecidablePred IsName
  | [] => inferInstanceAs (Decidable False)
  | _ :: _ => inferInstanceAs (Decidable (_ ∧ _))

variable {lead name argument : Text} {value : Option Text}

theorem named_spelling (hname : IsName name) :
    Argument.named (spelling [] name value) = .flag name value := by
  cases name with
  | nil => exact hname.elim
  | cons b rest =>
      obtain ⟨hdash, hequals⟩ := hname
      rw [List.mem_cons, not_or] at hequals
      have hfirst : (b = byte '-' || b = byte '=') = false := by
        simp [hdash, Ne.symm hequals.1]
      cases value with
      | none =>
          have hcut : Text.cut (byte '=') rest = none :=
            Text.cut_eq_none_iff.mpr hequals.2
          simp [spelling, Argument.named, splitValue, hfirst, hcut]
      | some value =>
          have hcut : Text.cut (byte '=') (rest ++ byte '=' :: value) =
              some (rest, value) :=
            Text.cut_eq_some_iff.mpr ⟨rfl, hequals.2⟩
          simp [spelling, Argument.named, splitValue, hfirst, hcut]

theorem spelling_eq_append (lead name : Text) (value : Option Text) :
    spelling lead name value = lead ++ spelling [] name value := by
  cases value <;> rfl

/-- A flag is understood in each of its spellings. -/
theorem ofText_spelling (hlead : lead ∈ dashes) (hname : IsName name) :
    Argument.ofText (spelling lead name value) = .flag name value := by
  rw [spelling_eq_append, ← named_spelling hname]
  cases name with
  | nil => exact hname.elim
  | cons b rest =>
      obtain ⟨tail, htail⟩ : ∃ tail, spelling [] (b :: rest) value =
        b :: tail := by
        cases value <;> exact ⟨_, rfl⟩
      rw [htail]
      simp only [dashes, List.mem_cons, List.not_mem_nil, or_false] at hlead
      obtain rfl | rfl := hlead
      · exact if_pos hname.1
      · rfl

/-- What is understood as a flag is a spelling of it. -/
theorem exists_spelling_of_ofText
    (h : Argument.ofText argument = .flag name value) :
    ∃ lead ∈ dashes, argument = spelling lead name value := by
  have hnamed : ∀ {t : Text}, Argument.named t = .flag name value →
      t = spelling [] name value := by
    intro t ht
    obtain ⟨-, hcut, hname⟩ := named_eq_flag ht
    cases value with
    | none => exact hname rfl
    | some value => exact (Text.cut_eq_some_iff.mp hcut).1
  unfold Argument.ofText at h
  split at h
  · rename_i first second rest
    split_ifs at h with hfirst hsecond hrest
    · obtain rfl : first = byte '-' := not_not.mp hfirst
      refine ⟨text "-", by simp [dashes], ?_⟩
      rw [spelling_eq_append, ← hnamed h]
      rfl
    · obtain rfl : first = byte '-' := not_not.mp hfirst
      obtain rfl : second = byte '-' := not_not.mp hsecond
      refine ⟨text "--", by simp [dashes], ?_⟩
      rw [spelling_eq_append, ← hnamed h]
      rfl
  · cases h

end Flags

namespace Settings

open Flags (Argument dashes spelling)

/-! ## Flags that are right, and flags that are not -/

/-- What one flag does. -/
inductive Assignment where
  | dump (on : Bool)
  | unannotated (n : Nullability)
  deriving DecidableEq, Repr

namespace Assignment

/-- The settings after one flag. -/
def apply : Assignment → Settings → Settings
  | .dump on, s => { s with dump := on }
  | .unannotated n, s => { s with unannotated := n }

/-- The settings after some flags, from the first to the last. -/
def applyAll (given : List Assignment) (s : Settings) : Settings :=
  given.foldl (fun s a => a.apply s) s

/-- What a flag makes the assumption about parameters. -/
def assumption? : Assignment → Option Nullability
  | .dump _ => none
  | .unannotated n => some n

/-- What the last flag for parameters says, if there is one. -/
def lastAssumption? (given : List Assignment) : Option Nullability :=
  (given.filterMap assumption?).getLast?

theorem unannotated_applyAll (given : List Assignment) (s : Settings) :
    (applyAll given s).unannotated =
      (lastAssumption? given).getD s.unannotated := by
  induction given generalizing s with
  | nil => rfl
  | cons a given ih =>
      rw [applyAll, List.foldl_cons, ← applyAll, ih]
      cases a with
      | dump on => rfl
      | unannotated n =>
          simp only [lastAssumption?, assumption?, List.filterMap_cons,
            List.getLast?_cons, apply, Option.getD_some]

end Assignment

/-- The arguments that a flag takes up if it is right, and what it does. -/
inductive Spells : List Text → Assignment → Prop
  | dump {lead : Text} (hlead : lead ∈ dashes) :
      Spells [spelling lead dumpName none] (.dump true)
  | dumpAs {lead value : Text} {on : Bool} (hlead : lead ∈ dashes)
      (hvalue : Flags.booleans.lookup value = some on) :
      Spells [spelling lead dumpName (some value)] (.dump on)
  | unannotated {lead name : Text} {n : Nullability} (hlead : lead ∈ dashes)
      (hname : readAssumption name = .ok n) :
      Spells [spelling lead unannotatedName none, name] (.unannotated n)
  | unannotatedAs {lead name : Text} {n : Nullability} (hlead : lead ∈ dashes)
      (hname : readAssumption name = .ok n) :
      Spells [spelling lead unannotatedName (some name)] (.unannotated n)

/-- The arguments of several flags, and what each of them does. -/
inductive SpellsAll : List Text → List Assignment → Prop
  | nil : SpellsAll [] []
  | cons {first rest : List Text} {a : Assignment} {given : List Assignment}
      (hfirst : Spells first a) (hrest : SpellsAll rest given) :
      SpellsAll (first ++ rest) (a :: given)

/-- Arguments that start with a flag that is not right, or with a wish for
help. -/
inductive Mistake : List Text → Flags.Error → Prop
  | malformed {argument : Text} {rest : List Text}
      (hargument : Argument.ofText argument = .malformed) :
      Mistake (argument :: rest) (.malformed argument)
  | undefined {argument name : Text} {value : Option Text} {rest : List Text}
      (hargument : Argument.ofText argument = .flag name value)
      (hdump : name ≠ dumpName) (hunannotated : name ≠ unannotatedName) :
      Mistake (argument :: rest)
        (if Flags.helpNames.contains name then .help else .undefined name)
  | badBoolean {lead value : Text} {rest : List Text} (hlead : lead ∈ dashes)
      (hvalue : Flags.booleans.lookup value = none) :
      Mistake (spelling lead dumpName (some value) :: rest)
        (.badBoolean value dumpName)
  | noValue {lead : Text} (hlead : lead ∈ dashes) :
      Mistake [spelling lead unannotatedName none] (.noValue unannotatedName)
  | badValue {lead name : Text} {e : AssumptionError} {rest : List Text}
      (hlead : lead ∈ dashes) (hname : readAssumption name = .error e) :
      Mistake (spelling lead unannotatedName none :: name :: rest)
        (.badValue name unannotatedName e.message)
  | badValueAs {lead name : Text} {e : AssumptionError} {rest : List Text}
      (hlead : lead ∈ dashes) (hname : readAssumption name = .error e) :
      Mistake (spelling lead unannotatedName (some name) :: rest)
        (.badValue name unannotatedName e.message)

/-- Arguments with a mistake behind some flags that are right. -/
def FailsAfter (given : List Assignment) (e : Flags.Error)
    (arguments : List Text) : Prop :=
  ∃ front failing, arguments = front ++ failing ∧ SpellsAll front given ∧
    Mistake failing e

/-- Arguments that start with no flag. -/
inductive Ends : List Text → Prop
  | nil : Ends []
  | operand {argument : Text} {rest : List Text}
      (h : Argument.ofText argument = .operand) : Ends (argument :: rest)
  | terminator {argument : Text} {rest : List Text}
      (h : Argument.ofText argument = .terminator) : Ends (argument :: rest)

/-- What a mistake does to the settings. -/
def afterMistake (s : Settings) : Flags.Error → Settings
  | .badBoolean _ _ => { s with dump := false }
  | _ => s

theorem unannotated_afterMistake (s : Settings) (e : Flags.Error) :
    (s.afterMistake e).unannotated = s.unannotated := by
  cases e <;> rfl

/-! ## Every list of arguments is of this form -/

/-- Arguments start with a flag that is right, or with one that is not, or with
none. -/
theorem ends_or_mistake_or_spells (arguments : List Text) :
    Ends arguments ∨ (∃ e, Mistake arguments e) ∨
      ∃ first a rest, arguments = first ++ rest ∧ Spells first a := by
  cases arguments with
  | nil => exact .inl .nil
  | cons argument rest =>
      cases hargument : Argument.ofText argument with
      | operand => exact .inl (.operand hargument)
      | terminator => exact .inl (.terminator hargument)
      | malformed => exact .inr (.inl ⟨_, .malformed hargument⟩)
      | flag name value =>
          by_cases hdump : name = dumpName
          · subst hdump
            obtain ⟨lead, hlead, rfl⟩ :=
              Flags.exists_spelling_of_ofText hargument
            cases value with
            | none => exact .inr (.inr ⟨_, _, rest, rfl, .dump hlead⟩)
            | some value =>
                cases hvalue : Flags.booleans.lookup value with
                | none => exact .inr (.inl ⟨_, .badBoolean hlead hvalue⟩)
                | some on =>
                    exact .inr (.inr ⟨_, _, rest, rfl, .dumpAs hlead hvalue⟩)
          by_cases hunannotated : name = unannotatedName
          · subst hunannotated
            obtain ⟨lead, hlead, rfl⟩ :=
              Flags.exists_spelling_of_ofText hargument
            cases value with
            | some name =>
                cases hname : readAssumption name with
                | error e => exact .inr (.inl ⟨_, .badValueAs hlead hname⟩)
                | ok n =>
                    have hspells := Spells.unannotatedAs hlead hname
                    exact .inr (.inr ⟨_, _, rest, rfl, hspells⟩)
            -- The value is the next argument, whatever it looks like.
            | none =>
                cases rest with
                | nil => exact .inr (.inl ⟨_, .noValue hlead⟩)
                | cons name rest =>
                    cases hname : readAssumption name with
                    | error e => exact .inr (.inl ⟨_, .badValue hlead hname⟩)
                    | ok n =>
                        have hspells := Spells.unannotated hlead hname
                        exact .inr (.inr ⟨_, _, rest, rfl, hspells⟩)
          · exact .inr (.inl ⟨_, .undefined hargument hdump hunannotated⟩)

theorem Spells.length_pos {first : List Text} {a : Assignment}
    (h : Spells first a) :
    0 < first.length := by
  cases h <;> exact Nat.succ_pos _

theorem exists_spellsAll (arguments : List Text) :
    ∃ front given rest, arguments = front ++ rest ∧ SpellsAll front given ∧
      (Ends rest ∨ ∃ e, Mistake rest e) := by
  -- A flag takes up one argument or two, so the induction is on their number.
  induction hlength : arguments.length using Nat.strong_induction_on
    generalizing arguments with
  | _ count ih =>
      rcases ends_or_mistake_or_spells arguments with hends | hmistake | hspells
      · exact ⟨[], [], arguments, rfl, .nil, .inl hends⟩
      · exact ⟨[], [], arguments, rfl, .nil, .inr hmistake⟩
      · obtain ⟨first, a, tail, rfl, hfirst⟩ := hspells
        have hshorter : tail.length < count := by
          have hpos := hfirst.length_pos
          rw [List.length_append] at hlength
          omega
        obtain ⟨front, given, rest, rfl, hfront, hrest⟩ :=
          ih _ hshorter tail rfl
        exact ⟨first ++ front, a :: given, rest, by simp, .cons hfirst hfront,
          hrest⟩

/-! ## What reading the arguments does -/

variable {defaults : Settings}

theorem isName_dumpName : Flags.IsName dumpName := by decide

theorem isName_unannotatedName : Flags.IsName unannotatedName := by decide

theorem find?_dumpName : (flags defaults).find? (·.name = dumpName) =
    some (dumpFlag id (fun s _ => s) defaults) := rfl

theorem find?_unannotatedName :
    (flags defaults).find? (·.name = unannotatedName) =
    some (unannotatedFlag id (fun s _ => s) defaults) := rfl

theorem find?_eq_none {name : Text} (hdump : name ≠ dumpName)
    (hunannotated : name ≠ unannotatedName) :
    (flags defaults).find? (·.name = name) = none := by
  simp [flags, dumpFlag, unannotatedFlag, hdump.symm, hunannotated.symm]

theorem parse_dump {argument : Text}
    (h : Argument.ofText argument = .flag dumpName none) (rest : List Text)
    (s : Settings) :
    Flags.parse (flags defaults) (argument :: rest) s =
      Flags.parse (flags defaults) rest { s with dump := true } := by
  simp only [Flags.parse, h, find?_dumpName, dumpFlag, id]

theorem parse_dumpAs {argument value : Text}
    (h : Argument.ofText argument = .flag dumpName (some value))
    (rest : List Text) (s : Settings) :
    Flags.parse (flags defaults) (argument :: rest) s =
      match Flags.booleans.lookup value with
      | some on => Flags.parse (flags defaults) rest { s with dump := on }
      | none =>
        ⟨{ s with dump := false }, rest,
          some (.badBoolean value dumpName)⟩ := by
  cases hvalue : Flags.booleans.lookup value <;>
    simp only [Flags.parse, h, find?_dumpName, dumpFlag, id, hvalue]

theorem parse_unannotatedAs {argument name : Text}
    (h : Argument.ofText argument = .flag unannotatedName (some name))
    (rest : List Text) (s : Settings) :
    Flags.parse (flags defaults) (argument :: rest) s =
      match readAssumption name with
      | .ok n => Flags.parse (flags defaults) rest { s with unannotated := n }
      | .error e =>
        ⟨s, rest, some (.badValue name unannotatedName e.message)⟩ := by
  cases hname : readAssumption name <;>
    simp only [Flags.parse, h, find?_unannotatedName, unannotatedFlag, id,
      hname]

theorem parse_unannotated {argument : Text}
    (h : Argument.ofText argument = .flag unannotatedName none) (name : Text)
    (rest : List Text) (s : Settings) :
    Flags.parse (flags defaults) (argument :: name :: rest) s =
      match readAssumption name with
      | .ok n => Flags.parse (flags defaults) rest { s with unannotated := n }
      | .error e =>
        ⟨s, rest, some (.badValue name unannotatedName e.message)⟩ := by
  cases hname : readAssumption name <;>
    simp only [Flags.parse, h, find?_unannotatedName, unannotatedFlag, id,
      hname]

/-- A flag that is right does what it says, and reading goes on behind it. -/
theorem parse_of_spells {first : List Text} {a : Assignment}
    (h : Spells first a) (rest : List Text) (s : Settings) :
    Flags.parse (flags defaults) (first ++ rest) s =
      Flags.parse (flags defaults) rest (a.apply s) := by
  cases h with
  | dump hlead =>
      exact parse_dump (Flags.ofText_spelling hlead isName_dumpName) rest s
  | dumpAs hlead hvalue =>
      rw [List.singleton_append,
        parse_dumpAs (Flags.ofText_spelling hlead isName_dumpName), hvalue]
      rfl
  | unannotated hlead hname =>
      rw [List.cons_append, List.singleton_append,
        parse_unannotated (Flags.ofText_spelling hlead isName_unannotatedName),
        hname]
      rfl
  | unannotatedAs hlead hname =>
      rw [List.singleton_append,
        parse_unannotatedAs
          (Flags.ofText_spelling hlead isName_unannotatedName),
        hname]
      rfl

theorem parse_of_spellsAll {front : List Text} {given : List Assignment}
    (h : SpellsAll front given) (rest : List Text) (s : Settings) :
    Flags.parse (flags defaults) (front ++ rest) s =
      Flags.parse (flags defaults) rest (Assignment.applyAll given s) := by
  induction h generalizing s with
  | nil => rfl
  | @cons first more a given hfirst _ ih =>
      rw [List.append_assoc, parse_of_spells hfirst, ih]
      rfl

/-- Reading ends at a mistake. -/
theorem parse_of_mistake {arguments : List Text} {e : Flags.Error}
    (h : Mistake arguments e) (s : Settings) :
    (Flags.parse (flags defaults) arguments s).error = some e ∧
      (Flags.parse (flags defaults) arguments s).options =
        s.afterMistake e := by
  cases h with
  | malformed hargument =>
      rw [Flags.parse, hargument]
      exact ⟨rfl, rfl⟩
  | undefined hargument hdump hunannotated =>
      rw [Flags.parse, hargument]
      dsimp only
      rw [find?_eq_none hdump hunannotated]
      refine ⟨rfl, ?_⟩
      split_ifs <;> rfl
  | badBoolean hlead hvalue =>
      rw [parse_dumpAs (Flags.ofText_spelling hlead isName_dumpName), hvalue]
      exact ⟨rfl, rfl⟩
  | noValue hlead =>
      rw [Flags.parse, Flags.ofText_spelling hlead isName_unannotatedName]
      dsimp only
      rw [find?_unannotatedName]
      exact ⟨rfl, rfl⟩
  | badValue hlead hname =>
      rw [parse_unannotated
        (Flags.ofText_spelling hlead isName_unannotatedName),
        hname]
      exact ⟨rfl, rfl⟩
  | badValueAs hlead hname =>
      rw [parse_unannotatedAs
        (Flags.ofText_spelling hlead isName_unannotatedName),
        hname]
      exact ⟨rfl, rfl⟩

theorem parse_of_ends {arguments : List Text} (h : Ends arguments)
    (s : Settings) :
    (Flags.parse (flags defaults) arguments s).error = none ∧
      (Flags.parse (flags defaults) arguments s).options = s := by
  cases h with
  | nil => exact ⟨rfl, rfl⟩
  | operand hargument | terminator hargument =>
      rw [Flags.parse, hargument]
      exact ⟨rfl, rfl⟩

/-- Reading arguments with a mistake does what the flags before it say, and then
what the mistake does. -/
theorem parse_of_failsAfter {arguments : List Text} {given : List Assignment}
    {e : Flags.Error} (h : FailsAfter given e arguments) (s : Settings) :
    (Flags.parse (flags defaults) arguments s).error = some e ∧
      (Flags.parse (flags defaults) arguments s).options =
        (Assignment.applyAll given s).afterMistake e := by
  obtain ⟨front, failing, rfl, hfront, hmistake⟩ := h
  rw [parse_of_spellsAll hfront]
  exact parse_of_mistake hmistake _

/-- Reading arguments does what the flags at their front say, or there is a
mistake. -/
theorem parse_cases (defaults s : Settings) (arguments : List Text) :
    ∃ front given, SpellsAll front given ∧
      ((Flags.parse (flags defaults) arguments s).error = none ∧
          (Flags.parse (flags defaults) arguments s).options =
            Assignment.applyAll given s ∨
        ∃ e, FailsAfter given e arguments) := by
  obtain ⟨front, given, rest, rfl, hfront, hrest⟩ := exists_spellsAll arguments
  refine ⟨front, given, hfront, ?_⟩
  rcases hrest with hends | ⟨e, hmistake⟩
  · rw [parse_of_spellsAll hfront]
    exact .inl (parse_of_ends hends _)
  · exact .inr ⟨e, front, rest, rfl, hfront, hmistake⟩

end Settings
end Nullness
