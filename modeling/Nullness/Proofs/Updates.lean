import Nullness.Proofs.SettingFlags

/-!
# Updates of the settings

The settings change in place, by configuration files and by flags, in any order
and however often.  A file is decoded and checked as a whole before it is
obeyed: if there is anything wrong with it, no setting has changed when that is
found out, and otherwise those settings change that the decoder has found in it.
Flags take effect one by one, so that those before a mistake have done their
work.

Nothing but the name of a nullability that can be assumed ever gets into the
settings, whatever decoders there are.  The main theorem says this for every
sequence of updates from the defaults on, together with what the next update
does.
-/

namespace Nullness

/-- A nullability that can be assumed about parameters. -/
def Nullability.IsAssumable (n : Nullability) : Prop :=
  n = .null ∨ n = .nonNull ∨ n = .nullable

theorem isAssumable_of_readAssumption {name : Text} {n : Nullability}
    (h : readAssumption name = .ok n) : n.IsAssumable := by
  rw [readAssumption] at h
  split at h
  · cases h
  · rename_i hfind
    split_ifs at h with hunknown
    cases h
    have hnamed : n ∈ Nullability.named := List.mem_of_find?_eq_some hfind
    simpa [Nullability.named, Nullability.IsAssumable, hunknown] using hnamed

namespace Settings

/-! ## Configuration files -/

/-- Settings before and after what has been found in a file is obeyed.  No key
is left over; a setting that has been found has its value from there, and any
other setting is as it was. -/
structure Obeys (found : Decoded) (s s' : Settings) : Prop where
  known : found.undecoded = []
  unannotated_eq : found.unannotated = none → s'.unannotated = s.unannotated
  unannotated_found : ∀ name, found.unannotated = some name →
    readAssumption name = .ok s'.unannotated
  dump_eq : found.dump = none → s'.dump = s.dump
  dump_found : ∀ on, found.dump = some on → s'.dump = on

/-- What has been found in a file is assigned as a whole or not at all: the
check that is left is made before the first assignment. -/
theorem assign_cases {found : Decoded} (hknown : found.undecoded = [])
    (path : Text) (s : Settings) :
    (∃ e, assign path found s = .error e s) ∨
      ∃ s', assign path found s = .ok () s' ∧ Obeys found s s' := by
  obtain ⟨unannotated, dump, undecoded⟩ := found
  have hdump : (dump = none → dump.getD s.dump = s.dump) ∧
      ∀ on, dump = some on → dump.getD s.dump = on := by
    cases dump with
    | none => exact ⟨fun _ => rfl, nofun⟩
    | some on => exact ⟨nofun, fun _ => Option.some.inj⟩
  cases unannotated with
  | none =>
      refine .inr ⟨{ s with dump := dump.getD s.dump }, ?_, hknown,
        fun _ => rfl, nofun, hdump.1, hdump.2⟩
      cases dump <;> rfl
  | some name =>
      cases hname : readAssumption name with
      | error e =>
          refine .inl ⟨.assumption path e, ?_⟩
          simp only [assign, hname]
          rfl
      | ok n =>
          refine .inr ⟨⟨n, dump.getD s.dump⟩, ?_, hknown, nofun, ?_,
            hdump.1, hdump.2⟩
          · simp only [assign, hname]
            cases dump <;> rfl
          · rintro _ ⟨⟩
            exact hname

/-- A file fails and leaves the settings as they were, or it is obeyed. -/
theorem update_cases (decode : Decoder) (files : Files) (path : Text)
    (s : Settings) :
    (∃ e, update decode files path s = .error e s) ∨
      ∃ content found s', files path = .ok content ∧
        decode content = .ok found ∧
        update decode files path s = .ok () s' ∧ Obeys found s s' := by
  cases hfile : files path with
  | error e =>
      refine .inl ⟨.unreadable path e, ?_⟩
      rw [update, hfile]
      rfl
  | ok content =>
      cases hdecode : decode content with
      | error why =>
          refine .inl ⟨.malformed path why, ?_⟩
          simp only [update, hfile, hdecode]
          rfl
      | ok found =>
          cases hknown : found.undecoded with
          | cons key keys =>
              refine .inl ⟨.unknownKey path key, ?_⟩
              simp only [update, hfile, hdecode, hknown]
              rfl
          | nil =>
              have hupdate : update decode files path s =
                  assign path found s := by
                simp only [update, hfile, hdecode, hknown]
              rw [hupdate]
              refine (assign_cases hknown path s).imp_right ?_
              rintro ⟨s', hassign, hobeys⟩
              exact ⟨content, found, s', rfl, hdecode, hassign, hobeys⟩

theorem Obeys.isAssumable {found : Decoded} {s s' : Settings}
    (h : Obeys found s s') (hs : s.unannotated.IsAssumable) :
    s'.unannotated.IsAssumable := by
  cases hfound : found.unannotated with
  | none =>
      rw [h.unannotated_eq hfound]
      exact hs
  | some name =>
      exact isAssumable_of_readAssumption (h.unannotated_found name hfound)

/-! ## Flags -/

theorem Spells.isAssumable {arguments : List Text} {a : Assignment}
    (h : Spells arguments a) {n : Nullability} (hn : a.assumption? = some n) :
    n.IsAssumable := by
  cases h with
  | dump | dumpAs => cases hn
  | unannotated _ hname | unannotatedAs _ hname =>
      cases hn
      exact isAssumable_of_readAssumption hname

theorem SpellsAll.isAssumable {arguments : List Text} {given : List Assignment}
    (h : SpellsAll arguments given) {n : Nullability}
    (hn : n ∈ given.filterMap Assignment.assumption?) : n.IsAssumable := by
  induction h with
  | nil => cases hn
  | cons hfirst _ ih =>
      obtain ⟨a, ha, han⟩ := List.mem_filterMap.mp hn
      rcases List.mem_cons.mp ha with rfl | ha
      · exact hfirst.isAssumable han
      · exact ih (List.mem_filterMap.mpr ⟨a, ha, han⟩)

/-- The last flag for parameters before a mistake counts. -/
theorem unannotated_parse_of_failsAfter {arguments : List Text}
    {given : List Assignment} {e : Flags.Error}
    (h : FailsAfter given e arguments) (defaults s : Settings) :
    (Flags.parse (flags defaults) arguments s).options.unannotated =
      (Assignment.lastAssumption? given).getD s.unannotated := by
  rw [(parse_of_failsAfter h s).2, unannotated_afterMistake,
    Assignment.unannotated_applyAll]

theorem exists_failsAfter_of_error {defaults s : Settings}
    {arguments : List Text} {e : Flags.Error}
    (h : (Flags.parse (flags defaults) arguments s).error = some e) :
    ∃ given, FailsAfter given e arguments := by
  obtain ⟨-, given, -, ⟨hnone, -⟩ | ⟨e', hfails⟩⟩ :=
    parse_cases defaults s arguments
  · rw [hnone] at h
    cases h
  · rw [(parse_of_failsAfter hfails s).1] at h
    cases h
    exact ⟨given, hfails⟩

theorem isAssumable_parse (defaults : Settings) {s : Settings}
    (hs : s.unannotated.IsAssumable) (arguments : List Text) :
    Nullability.IsAssumable
      (Flags.parse (flags defaults) arguments s).options.unannotated := by
  obtain ⟨front, given, hfront, hcases⟩ := parse_cases defaults s arguments
  have hoptions :
      (Flags.parse (flags defaults) arguments s).options.unannotated =
        (Assignment.lastAssumption? given).getD s.unannotated := by
    rcases hcases with ⟨-, hoptions⟩ | ⟨e, hfails⟩
    · rw [hoptions, Assignment.unannotated_applyAll]
    · exact unannotated_parse_of_failsAfter hfails defaults s
  rw [hoptions]
  cases hlast : Assignment.lastAssumption? given with
  | none => exact hs
  | some n => exact hfront.isAssumable (List.mem_of_getLast? hlast)

/-! ## Sequences of updates -/

/-- An update of the settings: by a configuration file, which has a decoder of
its own, or by flags whose defaults are the settings as they are. -/
inductive Update where
  | file (decode : Decoder) (files : Files) (path : Text)
  | flags (arguments : List Text)

namespace Update

/-- The settings after an update, whether or not it fails. -/
def apply : Update → Settings → Settings
  | .file decode files path, s =>
    match update decode files path s with
    | .ok _ s' => s'
    | .error _ s' => s'
  | .flags arguments, s => (Flags.parse s.flags arguments s).options

/-- The settings after some updates, from the first to the last. -/
def applyAll (updates : List Update) (s : Settings) : Settings :=
  updates.foldl (fun s u => u.apply s) s

theorem isAssumable_apply (u : Update) {s : Settings}
    (hs : s.unannotated.IsAssumable) :
    (u.apply s).unannotated.IsAssumable := by
  cases u with
  | file decode files path =>
      rw [apply]
      obtain ⟨e, hfails⟩ | ⟨content, found, s', -, -, hobeyed, hobeys⟩ :=
        update_cases decode files path s
      · rw [hfails]
        exact hs
      · rw [hobeyed]
        exact hobeys.isAssumable hs
  | flags arguments => exact isAssumable_parse s hs arguments

theorem isAssumable_applyAll (updates : List Update) {s : Settings}
    (hs : s.unannotated.IsAssumable) :
    (applyAll updates s).unannotated.IsAssumable := by
  induction updates generalizing s with
  | nil => exact hs
  | cons u updates ih => exact ih (u.isAssumable_apply hs)

end Update

/-- After any sequence of updates from the defaults on, the assumption about
parameters is one that can be made.  If then

* a file fails, for whatever reason, the settings are as they were;
* a file is obeyed, only the settings change that have been found in it;
* reading flags fails, there is a mistake behind flags that are right, and the
  assumption is that of the last flag for parameters among them, or without such
  a flag as it was. -/
theorem updates_are_local (updates : List Update) :
    let s := Update.applyAll updates {}
    s.unannotated.IsAssumable ∧
      (∀ decode files path e s',
        update decode files path s = .error e s' → s' = s) ∧
      (∀ decode files path s', update decode files path s = .ok () s' →
        ∃ content found, files path = .ok content ∧
          decode content = .ok found ∧ Obeys found s s') ∧
      (∀ arguments e, (Flags.parse s.flags arguments s).error = some e →
        ∃ given, FailsAfter given e arguments) ∧
      ∀ arguments e given, FailsAfter given e arguments →
        (Flags.parse s.flags arguments s).error = some e ∧
          (Flags.parse s.flags arguments s).options.unannotated =
            (Assignment.lastAssumption? given).getD s.unannotated := by
  intro s
  refine ⟨Update.isAssumable_applyAll updates (.inr (.inr rfl)), ?_, ?_, ?_, ?_⟩
  · intro decode files path e s' hfails
    obtain ⟨e', hfails'⟩ | ⟨content, found, s', -, -, hobeyed, -⟩ :=
      update_cases decode files path s
    · rw [hfails'] at hfails
      cases hfails
      rfl
    · rw [hobeyed] at hfails
      cases hfails
  · intro decode files path s' hobeyed
    obtain ⟨e, hfails⟩ |
      ⟨content, found, s'', hfile, hdecode, hobeyed', hobeys⟩ :=
      update_cases decode files path s
    · rw [hfails] at hobeyed
      cases hobeyed
    · rw [hobeyed'] at hobeyed
      cases hobeyed
      exact ⟨content, found, hfile, hdecode, hobeys⟩
  · exact fun arguments e => exists_failsAfter_of_error
  · exact fun arguments e given h =>
      ⟨(parse_of_failsAfter h s).1, unannotated_parse_of_failsAfter h s s⟩

/-- A decoder that finds the name of an assumption in a file, and nothing
else. -/
def assumptionDecoder : Decoder := fun content =>
  .ok { unannotated := some content }

/-- A decoder that finds the wish for frames in a file, and a name for an
assumption that cannot be made. -/
def unknownDecoder : Decoder := fun _ =>
  .ok { unannotated := some (text "Unknown"), dump := some true }

/-- Updates of both kinds, of which the first one succeeds and the others
fail. -/
def mixedUpdates : List Update :=
  [.file assumptionDecoder (fun _ => .ok (text "null")) (text "a.toml"),
    .flags [text "--unannotated-params=NonNull", text "-dump=maybe"],
    .file assumptionDecoder (fun _ => .error .missing) (text "b.toml"),
    .file unknownDecoder (fun _ => .ok []) (text "c.toml")]

/-- Flags of which the last one is refused. -/
def twoAssumptions : List Text :=
  [text "-unannotated-params", text "null", text "--unannotated-params=unknown"]

theorem updates_are_local_mixedUpdates :
    let s := Update.applyAll mixedUpdates {}
    s = ⟨.nonNull, false⟩ ∧ s.unannotated.IsAssumable ∧
      (∃ e, update unknownDecoder (fun _ => .ok []) (text "d.toml") s =
        .error e s) ∧
      (∃ s', update assumptionDecoder (fun _ => .ok (text "nullable"))
          (text "e.toml") s = .ok () s' ∧
        s'.unannotated = .nullable ∧ s'.dump = s.dump) ∧
      ∃ e given, FailsAfter given e twoAssumptions ∧
        (Flags.parse s.flags twoAssumptions s).options.unannotated =
          (Assignment.lastAssumption? given).getD s.unannotated := by
  intro s
  obtain ⟨hassumable, hfails, hobeyed, herror, hflags⟩ :=
    updates_are_local mixedUpdates
  have hs : s = ⟨.nonNull, false⟩ := by decide +kernel
  refine ⟨hs, hassumable, ?_, ?_, ?_⟩
  · cases hupdate :
      update unknownDecoder (fun _ => .ok []) (text "d.toml") s with
    | ok _ s' => cases hupdate
    | error e s' =>
        obtain rfl := hfails _ _ _ e s' hupdate
        exact ⟨e, rfl⟩
  · cases hupdate : update assumptionDecoder (fun _ => .ok (text "nullable"))
        (text "e.toml") s with
    | error e s' => cases hupdate
    | ok _ s' =>
        obtain ⟨content, found, hfile, hdecode, hobeys⟩ :=
          hobeyed _ _ _ s' hupdate
        cases hfile
        cases hdecode
        have hname := hobeys.unannotated_found _ rfl
        exact ⟨s', rfl, (Except.ok.inj hname).symm, hobeys.dump_eq rfl⟩
  · have hsome : (Flags.parse s.flags twoAssumptions s).error.isSome := by
      decide +kernel
    obtain ⟨e, he⟩ := Option.isSome_iff_exists.mp hsome
    obtain ⟨given, hgiven⟩ := herror twoAssumptions e he
    exact ⟨e, given, hgiven, (hflags twoAssumptions e given hgiven).2⟩

end Settings
end Nullness
