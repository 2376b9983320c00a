import Nullness.Proofs.Mnemonics
import Nullness.Proofs.Reachability

/-!
# Receivers

The diagnosis finds the value that an instruction dereferences by its depth in
the stack, which follows from the opcode and the descriptor.  The transfer
function takes entries from the stack as the form of the instruction says.  The
two agree: where a dereferencing instruction can be carried out, its receiver is
the deepest of the entries that it takes, and has one slot.

So the diagnosis passes over no reachable instruction for want of entries on the
stack, and lists, in ascending order, the reachable dereferences whose receivers
are null or may be.
-/

namespace Nullness

/-- The opcodes of the instructions that dereference a value. -/
def Opcode.dereferencing : List Opcode :=
  [.getfield, .putfield, .arraylength, .monitorenter, .monitorexit,
    .invokevirtual, .invokespecial, .invokeinterface]

/-- Dereferencing instructions without operands, by an access to a field, and by
a call. -/
theorem Opcode.form?_of_dereferencing {op : Opcode} (h : op ∈ dereferencing) :
    (∃ result, op.form? = some (.plain (.consume [1] result)) ∧
        (op = .arraylength ∨ op = .monitorenter ∨ op = .monitorexit)) ∨
      (op.form? = some (.field .getField) ∧ op = .getfield) ∨
      (op.form? = some (.field .putField) ∧ op = .putfield) ∨
      (op.form? = some (.invoke true) ∧
        (op = .invokevirtual ∨ op = .invokespecial ∨
          op = .invokeinterface)) := by
  simp only [dereferencing, List.mem_cons, List.not_mem_nil, or_false] at h
  rcases h with rfl | rfl | rfl | rfl | rfl | rfl | rfl | rfl
  · exact .inr (.inl ⟨rfl, rfl⟩)
  · exact .inr (.inr (.inl ⟨rfl, rfl⟩))
  · exact .inl ⟨_, rfl, by decide⟩
  · exact .inl ⟨_, rfl, by decide⟩
  · exact .inl ⟨_, rfl, by decide⟩
  · exact .inr (.inr (.inr ⟨rfl, by decide⟩))
  · exact .inr (.inr (.inr ⟨rfl, by decide⟩))
  · exact .inr (.inr (.inr ⟨rfl, by decide⟩))

namespace Diagnosis

variable {insn : Instruction} {depth : Nat}

theorem dereferencing_of_receiverDepth? (h : receiverDepth? insn = some depth) :
    insn.opcode ∈ Opcode.dereferencing := by
  simp only [Opcode.dereferencing, List.mem_cons, List.not_mem_nil, or_false]
  unfold receiverDepth? at h
  dsimp only at h
  split_ifs at h with hzero hone hcall
  · tauto
  · tauto
  · tauto

end Diagnosis

namespace Transfer

variable {insn : Instruction} {e : Effect} {form : Form}

/-- An instruction that has an effect has the operands that the form of its
opcode takes. -/
theorem takes_of_effect (hform : insn.opcode.form? = some form)
    (h : effect insn = .ok e) :
    form.takes insn = true := by
  cases insn with
  | plain op | int op operand | var op index | typed op desc | jump op target =>
      have hform : op.form? = some form := hform
      cases form <;> simp_all [effect, Form.takes]
  | field op owner name desc =>
      have hform : op.form? = some form := hform
      cases hdesc : Descriptor.parseFieldType desc with
      | error e => simp [effect, hdesc] at h
      | ok t => cases form <;> simp_all [effect, Form.takes]
  | method op owner name desc isInterface =>
      have hform : op.form? = some form := hform
      cases hdesc : Descriptor.parseMethodType desc with
      | error e => simp [effect, hdesc] at h
      | ok t =>
          simp only [effect, hdesc, hform] at h
          split_ifs at h
          cases form <;> simp_all [Form.takes]
  | increment | dynamic | constant | tableSwitch | lookupSwitch | multiArray =>
      cases hform
      rfl

end Transfer

namespace Diagnosis

variable {insn : Instruction} {f out : Frame}

theorem receiverDepth?_method {op : Opcode} {owner name desc : Text}
    {isInterface : Bool} {t : Descriptor.MethodType}
    (hop : op = .invokevirtual ∨ op = .invokespecial ∨ op = .invokeinterface)
    (hdesc : Descriptor.parseMethodType desc = .ok t) :
    receiverDepth? (.method op owner name desc isInterface) =
      some t.args.length := by
  rcases hop with rfl | rfl | rfl
  all_goals
    simp only [receiverDepth?, hdesc]
    rfl

/-- The effect of a dereferencing instruction takes the receiver after all other
entries. -/
theorem consumes_receiver_last {e : Effect}
    (hop : insn.opcode ∈ Opcode.dereferencing)
    (h : Transfer.effect insn = .ok e) :
    ∃ above result, e = .consume (above ++ [1]) result ∧
      receiverDepth? insn = some above.length := by
  rcases Opcode.form?_of_dereferencing hop with
    ⟨result, hform, hzero⟩ | ⟨hform, hget⟩ | ⟨hform, hput⟩ | ⟨hform, hcall⟩
  · have htakes := Transfer.takes_of_effect hform h
    cases insn <;> cases htakes
    rename_i op
    simp only [Transfer.effect, show op.form? = _ from hform,
      Except.ok.injEq] at h
    exact ⟨[], result, h.symm, if_pos (.inr hzero)⟩
  · have htakes := Transfer.takes_of_effect hform h
    cases insn <;> cases htakes
    rename_i op owner name desc
    rw [Transfer.effect, show op.form? = _ from hform] at h
    split at h
    · cases h
    · exact ⟨[], _, (Except.ok.inj h).symm, if_pos (.inl hget)⟩
  · have htakes := Transfer.takes_of_effect hform h
    cases insn <;> cases htakes
    rename_i op owner name desc
    cases (show op = .putfield from hput)
    rw [Transfer.effect] at h
    split at h
    · cases h
    · exact ⟨[_], _, (Except.ok.inj h).symm, rfl⟩
  · have htakes := Transfer.takes_of_effect hform h
    cases insn <;> cases htakes
    rename_i op owner name desc isInterface
    cases hdesc : Descriptor.parseMethodType desc with
    | error e => simp [Transfer.effect, hdesc] at h
    | ok t =>
        simp only [Transfer.effect, hdesc, show op.form? = _ from hform] at h
        split_ifs at h
        cases h
        refine ⟨t.args.reverse.map fun arg => arg.size, _, rfl, ?_⟩
        refine (receiverDepth?_method hcall hdesc).trans ?_
        rw [List.length_map, List.length_reverse]

/-- A dereferencing instruction that can be carried out takes its receiver, a
value of one slot, and everything above it, and leaves one value at most. -/
theorem exists_receiver_of_step (hop : insn.opcode ∈ Opcode.dereferencing)
    (h : Transfer.step f insn = .ok out) :
    ∃ depth v given, receiverDepth? insn = some depth ∧
      f.stack[depth]? = some v ∧
      v.size = 1 ∧ given.length ≤ 1 ∧
      out.stack = given ++ f.stack.drop (depth + 1) := by
  obtain ⟨e, taken, given, rest, locals, heffect, hx, hstack, -, -, rfl⟩ :=
    Transfer.step_eq_ok_iff_exchange.mp h
  obtain ⟨above, result, rfl, hdepth⟩ := consumes_receiver_last hop heffect
  cases hx with
  | consume hsizes =>
      obtain ⟨entries, last, rfl, hentries, hlast⟩ :=
        List.map_eq_append_iff.mp hsizes
      obtain ⟨v, rfl, hsize⟩ := List.map_eq_singleton_iff.mp hlast
      have hlength : above.length = entries.length := by
        rw [← hentries, List.length_map]
      refine ⟨above.length, v, result.toList, hdepth, ?_, hsize, ?_, ?_⟩
      · rw [hstack, hlength]
        simp
      · cases result <;> simp
      · rw [hstack, hlength]
        simp

theorem diagnose_ascending (frames : Array (Option Frame))
    (insns : List Instruction) :
    (diagnose frames insns).Pairwise (· < ·) := by
  have hpositions : insns.zipIdx.Pairwise fun entry entry' =>
      entry.2 < entry'.2 := by
    rw [← List.pairwise_map, List.zipIdx_map_snd]
    exact List.pairwise_lt_range'
  refine hpositions.filterMap _ ?_
  intro entry entry' hlt pos hpos pos' hpos'
  obtain ⟨-, hsome⟩ := Option.ite_none_right_eq_some.mp hpos
  obtain ⟨-, hsome'⟩ := Option.ite_none_right_eq_some.mp hpos'
  rwa [← Option.some.inj hsome, ← Option.some.inj hsome']

/-- Whether a position with a frame and a receiver is flagged depends on the
receiver. -/
theorem mem_diagnose_iff_receiver {frames : Array (Option Frame)}
    {insns : List Instruction} {pos depth : Nat} {v : Value}
    (hinsn : insns[pos]? = some insn) (hf : frameAt? frames pos = some f)
    (hdepth : receiverDepth? insn = some depth)
    (hv : f.stack[depth]? = some v) :
    pos ∈ diagnose frames insns ↔ v.nullability = .null ∨
      v.nullability = .nullable := by
  have hreceiver : receiver? f insn = some v :=
    receiver?_eq_some_iff.mpr ⟨depth, hdepth, hv⟩
  have hviolation : v.nullability.isViolation = true ↔
      v.nullability = .null ∨ v.nullability = .nullable := by
    simp [Nullability.isViolation]
  rw [mem_diagnose_iff, ← hviolation]
  constructor
  · rintro ⟨insn', f', v', hinsn', hf', hreceiver', hviolation'⟩
    obtain rfl := Option.some.inj (hinsn.symm.trans hinsn')
    obtain rfl := Option.some.inj (hf.symm.trans hf')
    obtain rfl := Option.some.inj (hreceiver.symm.trans hreceiver')
    exact hviolation'
  · intro hflag
    exact ⟨insn, f, v, hinsn, hf, hreceiver, hflag⟩

/-- Where a dereferencing instruction can be carried out, the diagnosis looks at
the deepest entry that it takes.  So the diagnosis of an analyzed method lists,
in ascending order, the reachable positions of dereferencing instructions whose
receivers are null or may be, and each of these instructions has a receiver. -/
theorem diagnose_looks_at_receivers :
    (∀ (f : Frame) (insn : Instruction) (out : Frame),
      insn.opcode ∈ Opcode.dereferencing → Transfer.step f insn = .ok out →
        ∃ depth v given, receiverDepth? insn = some depth ∧
          depth < f.stack.length ∧
          f.stack[depth]? = some v ∧ v.size = 1 ∧ given.length ≤ 1 ∧
          out.stack = given ++ f.stack.drop (depth + 1)) ∧
    ∀ (assumed : Nullability) (m : Method) (frames : Array (Option Frame)),
      Analysis.analyze assumed m = .ok frames →
      (diagnose frames m.instructions).Pairwise (· < ·) ∧
      (∀ pos ∈ diagnose frames m.instructions, Analysis.Reachable m pos ∧
        ∃ insn, m.instructions[pos]? = some insn ∧
        insn.opcode ∈ Opcode.dereferencing) ∧
      ∀ pos insn, Analysis.Reachable m pos → m.instructions[pos]? = some insn →
        insn.opcode ∈ Opcode.dereferencing →
          ∃ f depth v, frameAt? frames pos = some f ∧
            receiverDepth? insn = some depth ∧
            f.stack[depth]? = some v ∧ v.size = 1 ∧
            (pos ∈ diagnose frames m.instructions ↔
              v.nullability = .null ∨ v.nullability = .nullable) := by
  constructor
  · intro f insn out hop hstep
    obtain ⟨depth, v, given, hdepth, hv, hrest⟩ :=
      exists_receiver_of_step hop hstep
    exact ⟨depth, v, given, hdepth, (List.getElem?_eq_some_iff.mp hv).1, hv,
      hrest⟩
  · intro assumed m frames h
    refine ⟨diagnose_ascending frames m.instructions, ?_, ?_⟩
    · intro pos hpos
      obtain ⟨insn, f, v, hinsn, hf, hreceiver, -⟩ := mem_diagnose_iff.mp hpos
      obtain ⟨depth, hdepth, -⟩ := receiver?_eq_some_iff.mp hreceiver
      refine ⟨?_, insn, hinsn, dereferencing_of_receiverDepth? hdepth⟩
      have hne : m.instructions ≠ [] :=
        List.ne_nil_of_mem (List.mem_of_getElem? hinsn)
      rw [← Analysis.isSome_frameAt?_iff_reachable hne h, hf]
      rfl
    · intro pos insn hreachable hinsn hop
      have hne : m.instructions ≠ [] :=
        List.ne_nil_of_mem (List.mem_of_getElem? hinsn)
      obtain ⟨entry, -, hfix, -⟩ := Analysis.fixpoint_of_analyze hne h
      obtain ⟨f, hf⟩ := hfix.exists_frame hreachable
      obtain ⟨after, targets, hprop⟩ := hfix.closed pos insn f hinsn hf
      obtain ⟨depth, v, -, hdepth, hv, hsize, -⟩ :=
        exists_receiver_of_step hop hprop.step
      exact ⟨f, depth, v, hf, hdepth, hv, hsize,
        mem_diagnose_iff_receiver hinsn hf hdepth hv⟩

/-- A frame with the arguments of a call, one of them of two slots, above its
receiver. -/
def callFrame : Frame where
  locals := []
  stack := [.primitive 2, .primitive 1, .nullable, .null]
  slots := 5
  maxStack := 5

/-- A call of a method with two arguments. -/
def callWithArguments : Instruction :=
  .method .invokevirtual (text "Node") (text "at") (text "(IJ)I") false

/-- The call takes its receiver from under its arguments, and both dereferences
of `followLinks`, one of them in a handler, have receivers that may be null. -/
theorem diagnose_looks_at_receivers_followLinks :
    (∃ out depth v given, Transfer.step callFrame callWithArguments = .ok out ∧
      receiverDepth? callWithArguments = some depth ∧
      callFrame.stack[depth]? = some v ∧ v.size = 1 ∧ given.length ≤ 1 ∧
      out.stack = given ++ callFrame.stack.drop (depth + 1)) ∧
    Analysis.analyze .unknown Analysis.followLinks =
      .ok Analysis.followLinksFrames ∧
    ∀ pos ∈ [1, 8], Analysis.Reachable Analysis.followLinks pos ∧
      ∃ insn f depth v, Analysis.followLinks.instructions[pos]? = some insn ∧
        frameAt? Analysis.followLinksFrames pos = some f ∧
        receiverDepth? insn = some depth ∧ f.stack[depth]? = some v ∧
        (v.nullability = .null ∨ v.nullability = .nullable) := by
  obtain ⟨hreceiver, hdiagnose⟩ := diagnose_looks_at_receivers
  have hanalyze := Analysis.analyze_followLinks
  obtain ⟨-, hflagged, hreachable⟩ := hdiagnose _ _ _ hanalyze
  refine ⟨?_, hanalyze, ?_⟩
  · have hstep : Transfer.step callFrame callWithArguments =
        .ok (callFrame.restack [.primitive 1, .null] 2) := by
      decide +kernel
    obtain ⟨depth, v, given, hdepth, -, hrest⟩ :=
      hreceiver _ _ _ (by decide) hstep
    exact ⟨_, depth, v, given, hstep, hdepth, hrest⟩
  · have hmem : ∀ pos ∈ [1, 8],
        pos ∈ diagnose Analysis.followLinksFrames
          Analysis.followLinks.instructions := by
      decide +kernel
    intro pos hpos
    obtain ⟨hpath, insn, hinsn, hop⟩ := hflagged pos (hmem pos hpos)
    obtain ⟨f, depth, v, hf, hdepth, hv, -, hiff⟩ :=
      hreachable pos insn hpath hinsn hop
    exact ⟨hpath, insn, f, depth, v, hinsn, hf, hdepth, hv,
      hiff.mp (hmem pos hpos)⟩

end Diagnosis
end Nullness
