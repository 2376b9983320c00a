import Nullness.Proofs.Spelling

/-!
# A printed method is read back

Assembling undoes printing, for every method whose names, operands and targets
can be written at all: `Method.Printable` says which methods those are.

The reader is followed part by part: the class, the header, the bounds, the
parameters, the body and the exception table each add what they stand for to the
draft of the method, the body and the exception table as lines that are resolved
at the end.
-/

namespace Nullness

open Assembly

/-- An entry of the exception table of a method with a number of instructions,
which can be written as a line. -/
structure Handler.Printable (length : Nat) (h : Handler) : Prop
    extends h.Resolved length where
  type : h.type = [] ∨ IsToken h.type ∧ h.type ≠ text "all"

instance (length : Nat) (h : Handler) : Decidable (h.Printable length) :=
  decidable_of_iff
    (h.Resolved length ∧ (h.type = [] ∨ IsToken h.type ∧ h.type ≠ text "all"))
    ⟨fun ⟨resolved, type⟩ => ⟨resolved, type⟩,
      fun h => ⟨h.toResolved, h.type⟩⟩

/-- A method that can be written as a source text.  Lists have as many entries
as numbers of 64 bits can count. -/
structure Method.Printable (m : Method) : Prop where
  owner : m.owner = [] ∨ IsToken m.owner
  name : IsToken m.name
  paren : byte '(' ∉ m.name
  desc : m.desc.head? = some (byte '(')
  nameDesc : IsToken (m.name ++ m.desc)
  maxStack : 0 ≤ m.maxStack.toInt
  maxLocals : 0 ≤ m.maxLocals.toInt
  params : ∀ n ∈ m.params, n ∈ Nullability.named
  handlers : ∀ h ∈ m.handlers, h.Printable m.instructions.length
  instructions : ∀ insn ∈ m.instructions, insn.Canonical m.instructions.length
  length_instructions : m.instructions.length < 2 ^ 63
  length_params : m.params.length < 2 ^ 63

namespace Assembly

variable {number pos : Nat} {p : Progress} {draft : Draft} {m : Method}

/-! ## The body -/

/-- The line that marks a position records its label. -/
theorem advance_labelLine (hlabels : draft.labels = labelEntries pos)
    (hsize : draft.body.size = pos) (hpos : pos < 2 ^ 63) :
    advance { p with mode := .body draft }
        ⟨number, labelOf (Int64.ofNat pos) ++ text ":", []⟩ =
      .ok { p with
        mode := .body { draft with labels := labelEntries (pos + 1) } } := by
  have hname : labelName? (labelOf (Int64.ofNat pos) ++ text ":") =
      some (labelOf (Int64.ofNat pos)) := by
    rw [labelName?, show text ":" = [byte ':'] from rfl, List.getLast?_concat,
      List.dropLast_concat]
    rfl
  have hnew : ¬ Inside pos (Int64.ofNat pos) := by
    rw [Inside, Int64.toInt_ofNat_of_lt hpos]
    omega
  have hlookup :
      ((labelEntries pos).lookup (labelOf (Int64.ofNat pos))).isSome =
        false := by
    rw [lookup_labelEntries (by omega), if_neg hnew]
    rfl
  simp only [advance, advanceLabelled, hname, hlabels, hlookup,
    Bool.false_eq_true, if_false, Line.ofFields?, hsize, labelEntries]

/-- Reading a printed body collects a line for every instruction and a label for
every position. -/
theorem reads_bodyLines {labels : Labels} {insns : List Instruction}
    (draft : Draft)
    (hinsns : ∀ insn ∈ insns, Assembles labels (instructionLines insn) insn)
    (hlabels : draft.labels = labelEntries pos) (hsize : draft.body.size = pos)
    (hlength : pos + insns.length < 2 ^ 63) (p : Progress) :
    ∃ lines, Collects (instruction labels) lines insns ∧
      Reads number { p with mode := .body draft } (bodyLines pos insns)
        { p with
          mode := .body { draft with
            body := draft.body ++ lines
            labels := labelEntries (pos + insns.length + 1) } } := by
  induction insns generalizing number pos draft with
  | nil =>
      refine ⟨[], .nil, reads_cons (advance_labelLine hlabels hsize hlength) ?_⟩
      rw [show draft.body ++ ([] : List Line) = draft.body from by simp]
      exact reads_nil _ _
  | cons insn insns ih =>
      -- The label of the position comes first, then the lines of the
      -- instruction, and what they have made of the draft is where the rest of
      -- the body starts from.
      obtain ⟨hinsn, hinsns⟩ := List.forall_mem_cons.mp hinsns
      rw [List.length_cons] at hlength
      let marked : Draft := { draft with labels := labelEntries (pos + 1) }
      obtain ⟨line, hread, hline⟩ := hinsn (number + 1) p marked
      have hsize' : (marked.collect line).body.size = pos + 1 := by
        rw [Draft.collect, Array.size_push, hsize]
      obtain ⟨lines, hcollects, hrest⟩ := ih _ hinsns rfl hsize' (by omega)
      have hbody : draft.body.push line ++ lines =
          draft.body ++ (line :: lines) := by
        simp
      have hcount : pos + 1 + insns.length = pos + (insn :: insns).length := by
        rw [List.length_cons]
        omega
      refine ⟨line :: lines, .cons hline hcollects, ?_⟩
      refine reads_cons (advance_labelLine hlabels hsize (by omega))
        (hread.append ?_)
      rw [← hbody, ← hcount]
      exact hrest

/-! ## The declarations around the body -/

theorem setParam_length {params : List Nullability}
    (h : params.length < maxLength) (n : Nullability) :
    setParam params params.length n = .ok (params ++ [n]) := by
  simp [setParam, h]

theorem ofName?_name {n : Nullability} (h : n ∈ Nullability.named) :
    Nullability.ofName? n.name = some n := by
  revert n
  decide

theorem param_ofNat {index : Nat} {n : Nullability} (hn : n ∈ Nullability.named)
    (hindex : draft.params.length = index) (hroom : index < maxLength) :
    draft.param [Text.ofNat index, n.name] =
      .ok { draft with params := draft.params ++ [n] } := by
  have hlt : index < 2 ^ 63 := hroom.trans (by decide)
  have hdecimal : Number.decimal? (Text.ofNat index) =
      some (Int64.ofNat index) :=
    Number.decimal?_ofInt (Number.word?_natCast hlt)
  have hint : (Int64.ofNat index).toInt = index := Int64.toInt_ofNat_of_lt hlt
  simp only [Draft.param, hdecimal, hint, ofName?_name hn, Int.toNat_natCast]
  rw [if_neg (by omega), ← hindex, setParam_length (hindex ▸ hroom)]
  rfl

theorem reads_paramLines {params : List Nullability} {index : Nat}
    (hparams : ∀ n ∈ params, n ∈ Nullability.named)
    (hindex : draft.params.length = index)
    (hlength : index + params.length < 2 ^ 63) (p : Progress) :
    Reads number { p with mode := .body draft }
      ((params.zipIdx index).map fun (n, index) =>
        [text ".param", Text.ofNat index, n.name])
      { p with
        mode := .body { draft with params := draft.params ++ params } } := by
  induction params generalizing number index draft with
  | nil =>
      rw [List.append_nil]
      exact reads_nil _ _
  | cons n params ih =>
      obtain ⟨hn, hparams⟩ := List.forall_mem_cons.mp hparams
      rw [List.length_cons] at hlength
      let next : Draft := { draft with params := draft.params ++ [n] }
      have hadvance : advance { p with mode := .body draft }
          ⟨number, text ".param", [Text.ofNat index, n.name]⟩ =
            .ok { p with mode := .body next } := by
        change (do
          let draft ← atLine number (draft.param [Text.ofNat index, n.name])
          return { p with mode := .body draft }) = _
        have hmax : maxLength = 2 ^ 63 - 1 := by decide
        rw [param_ofNat hn hindex (by omega)]
        rfl
      have hnext : next.params.length = index + 1 := by simp [next, hindex]
      have hrest := @ih (number + 1) next (index + 1) hparams hnext (by omega)
      rw [show next.params ++ params = draft.params ++ n :: params from
        List.append_assoc _ _ _] at hrest
      exact reads_cons hadvance hrest

theorem limit_integerText {n : Int64} (hn : 0 ≤ n.toInt) (name : Text) :
    draft.limit [name, integerText n] =
      if name = text "stack" then .ok { draft with maxStack := n }
      else if name = text "locals" then .ok { draft with maxLocals := n }
      else .error (.error (.unknownLimit name)) := by
  simp only [Draft.limit, integerText,
    Number.decimal?_ofInt (Number.word?_toInt n)]
  rw [if_neg (by omega)]

theorem advance_limit {args : List Text} {draft' : Draft}
    (h : draft.limit args = .ok draft') :
    advance { p with mode := .body draft } ⟨number, text ".limit", args⟩ =
      .ok { p with mode := .body draft' } := by
  change (do
    let draft ← atLine number (draft.limit args)
    return { p with mode := .body draft }) = _
  rw [h]
  rfl

theorem reads_limits {stack locals : Int64} (hstack : 0 ≤ stack.toInt)
    (hlocals : 0 ≤ locals.toInt) (p : Progress) :
    Reads number { p with mode := .body draft }
      [[text ".limit", text "stack", integerText stack],
        [text ".limit", text "locals", integerText locals]]
      { p with
        mode := .body { draft with maxStack := stack, maxLocals := locals } } :=
  reads_cons (advance_limit (limit_integerText hstack (text "stack")))
    (reads_cons (advance_limit (limit_integerText hlocals (text "locals")))
      (reads_nil _ _))

/-! ## The exception table -/

theorem handler_handlerLine {length : Nat} {h : Handler}
    (hlength : length < 2 ^ 63) (hh : h.Printable length) :
    handler (printedLabels length) ⟨number, text ".catch",
      (handlerLine h).tail⟩ = .ok h := by
  have htype : (if (if h.type.isEmpty then text "all" else h.type) = text "all"
      then [] else if h.type.isEmpty then text "all" else h.type) = h.type := by
    rcases hh.type with htype | ⟨htoken, hall⟩
    · rw [htype]
      rfl
    · have hne : h.type.isEmpty = false := by simpa using htoken.ne_nil
      simp only [hne, Bool.false_eq_true, if_false, if_neg hall]
  simp only [handler, handlerLine, List.tail_cons, and_self, if_true,
    target_printedLabels hlength (.inl hh.start),
    target_printedLabels hlength (.inr ⟨rfl, hh.stop⟩),
    target_printedLabels hlength (.inl hh.target), htype]
  rfl

/-- The lines of the exception table are collected as they stand. -/
theorem reads_handlerLines {length : Nat} {handlers : List Handler}
    (hlength : length < 2 ^ 63) (hhandlers : ∀ h ∈ handlers, h.Printable length)
    (p : Progress) :
    ∃ lines, Collects (handler (printedLabels length)) lines handlers ∧
      Reads number { p with mode := .body draft } (handlers.map handlerLine)
        { p with
          mode := .body { draft with catches := draft.catches ++ lines } } := by
  induction handlers generalizing number draft with
  | nil =>
      refine ⟨[], .nil, ?_⟩
      rw [show draft.catches ++ ([] : List Line) = draft.catches from by simp]
      exact reads_nil _ _
  | cons entry handlers ih =>
      obtain ⟨hentry, hhandlers⟩ := List.forall_mem_cons.mp hhandlers
      let line : Line := ⟨number, text ".catch", (handlerLine entry).tail⟩
      let next : Draft := { draft with catches := draft.catches.push line }
      have hadvance : advance { p with mode := .body draft } line =
          .ok { p with mode := .body next } := rfl
      obtain ⟨lines, hcollects, hrest⟩ := @ih (number + 1) next hhandlers
      have hcatches : draft.catches.push line ++ lines =
          draft.catches ++ (line :: lines) := by
        simp
      refine ⟨line :: lines,
        .cons (handler_handlerLine hlength hentry) hcollects, ?_⟩
      rw [← hcatches]
      exact reads_cons hadvance hrest

/-! ## The whole method -/

theorem reads_class (number : Nat) (owner : Text) :
    Reads number {} (if owner.isEmpty then [] else [[text ".class", owner]])
      { owner := owner } := by
  cases owner with
  | nil => exact reads_nil _ _
  | cons b owner => exact reads_cons rfl (reads_nil _ _)

/-- A method that starts at a line, before anything is said about it. -/
def headed (m : Method) (line : Nat) : Draft where
  line := line
  owner := m.owner
  name := m.name
  desc := m.desc
  isStatic := m.isStatic

theorem reads_header (h : m.Printable) :
    Reads number { owner := m.owner }
      [text ".method" :: (if m.isStatic then [text "static"] else []) ++
        [m.name ++ m.desc]]
      { owner := m.owner, mode := .body (headed m number) } := by
  let line : Line := ⟨number, text ".method",
    (if m.isStatic then [text "static"] else []) ++ [m.name ++ m.desc]⟩
  have hheader : Draft.ofHeader m.owner line = .ok (headed m number) := by
    have hstatic : (if m.isStatic then [text "static"] else []).contains
        (text "static") = m.isStatic := by
      cases m.isStatic <;> rfl
    have hempty : m.name.isEmpty = false := by simpa using h.name.ne_nil
    simp only [line, Draft.ofHeader, List.getLast?_concat,
      splitDescriptor?_append h.paren h.desc, List.dropLast_concat, hstatic,
      hempty, Bool.false_eq_true, if_false, headed]
  refine reads_cons ?_ (reads_nil _ _)
  change (do
    let draft ← Draft.ofHeader m.owner line
    return ({ owner := m.owner, mode := .body draft } : Progress)) = _
  rw [hheader]
  rfl

theorem reads_end (h : draft.finish = .ok m) (p : Progress) :
    Reads number { p with mode := .body draft } [[text ".end", text "method"]]
      { p with methods := p.methods.push m, mode := .outside } := by
  refine reads_cons ?_ (reads_nil _ _)
  change (do
    let m ← draft.finish
    return { p with methods := p.methods.push m, mode := .outside }) = _
  rw [h]
  rfl

/-- A method that starts at a line, with everything that is said about it before
its body. -/
def declared (m : Method) (line : Nat) : Draft :=
  { headed m line with
    maxStack := m.maxStack
    maxLocals := m.maxLocals
    params := m.params }

theorem reads_declarations (h : m.Printable) :
    ∃ line, Reads 1 {}
      ((if m.owner.isEmpty then [] else [[text ".class", m.owner]])
        ++ [text ".method" :: (if m.isStatic then [text "static"] else []) ++
          [m.name ++ m.desc]]
        ++ [[text ".limit", text "stack", integerText m.maxStack],
          [text ".limit", text "locals", integerText m.maxLocals]]
        ++ paramLines m.params)
      { owner := m.owner, mode := .body (declared m line) } := by
  let p : Progress := { owner := m.owner }
  have hlength : 0 + m.params.length < 2 ^ 63 := by
    rw [Nat.zero_add]
    exact h.length_params
  have hheader := (reads_class 1 m.owner).append (reads_header h)
  have hlimits := hheader.append (reads_limits h.maxStack h.maxLocals p)
  exact ⟨_, hlimits.append (reads_paramLines h.params (by rfl) hlength p)⟩

/-- The lines of a method leave the reader with that method. -/
theorem reads_methodLines (h : m.Printable) :
    Reads 1 {} (methodLines m) { owner := m.owner, methods := #[m] } := by
  let p : Progress := { owner := m.owner }
  have hinsns : ∀ insn ∈ m.instructions,
      Assembles (printedLabels m.instructions.length) (instructionLines insn)
        insn :=
    fun insn hinsn =>
      assembles_instructionLines h.length_instructions
        (h.instructions insn hinsn)
  have hlength : 0 + m.instructions.length < 2 ^ 63 := by
    rw [Nat.zero_add]
    exact h.length_instructions
  obtain ⟨line, hdeclared⟩ := reads_declarations h
  have hempty : (declared m line).body.size = 0 := rfl
  obtain ⟨lines, hlines, hbody⟩ :=
    reads_bodyLines (declared m line) hinsns rfl hempty hlength p
  obtain ⟨catches, hcatches, htable⟩ :=
    reads_handlerLines h.length_instructions h.handlers p
  have hsize : lines.length = m.instructions.length := hlines.length_eq
  refine ((hdeclared.append hbody).append htable).append (reads_end ?_ p)
  exact Draft.finish_eq_ok_iff.mpr ⟨m.instructions, m.handlers,
    by simpa [declared, headed, printedLabels, hsize] using hlines,
    by simpa [declared, headed, printedLabels, hsize] using hcatches, rfl⟩

/-! ## The fields of a printed method -/

theorem isField_labelLine (pos : Nat) : ∀ t ∈ labelLine pos, IsField t := by
  intro t ht
  rw [List.mem_singleton.mp ht]
  exact ((isToken_labelOf _).append (List.all_eq_true.mp (by decide))).isField

theorem isField_bodyLines {length : Nat} {insns : List Instruction}
    (h : ∀ insn ∈ insns, insn.Canonical length) :
    ∀ line ∈ bodyLines pos insns, ∀ t ∈ line, IsField t := by
  induction insns generalizing pos with
  | nil => simpa [bodyLines] using isField_labelLine pos
  | cons insn insns ih =>
      obtain ⟨hinsn, hinsns⟩ := List.forall_mem_cons.mp h
      intro line hline
      rw [bodyLines, List.cons_append, List.mem_cons, List.mem_append] at hline
      rcases hline with rfl | hline | hline
      · exact isField_labelLine pos
      · exact isField_instructionLines hinsn line hline
      · exact ih hinsns line hline

theorem isField_paramLines {params : List Nullability}
    (h : ∀ n ∈ params, n ∈ Nullability.named) :
    ∀ line ∈ paramLines params, ∀ t ∈ line, IsField t := by
  have hname : ∀ n ∈ Nullability.named, IsToken n.name := by decide
  have hword : IsToken (text ".param") := by decide
  intro line hline
  obtain ⟨⟨n, index⟩, hmem, rfl⟩ := List.mem_map.mp hline
  have hn : n ∈ params := List.fst_mem_of_mem_zipIdx hmem
  have hindex : IsToken (Text.ofNat index) := isToken_ofInt index
  simpa using ⟨hword.isField, hindex.isField, (hname n (h n hn)).isField⟩

theorem isField_handlerLine {length : Nat} {h : Handler}
    (hh : h.Printable length) :
    ∀ t ∈ handlerLine h, IsField t := by
  have hwords : ∀ t ∈ [text ".catch", text "from", text "to", text "using"],
      IsToken t := by
    decide
  have htype : IsToken (if h.type.isEmpty then text "all" else h.type) := by
    rcases hh.type with htype | ⟨htoken, -⟩
    · rw [htype]
      decide
    · rw [if_neg (by simpa using htoken.ne_nil)]
      exact htoken
  intro t ht
  apply IsToken.isField
  simp only [handlerLine, List.mem_cons, List.not_mem_nil, or_false] at ht
  rcases ht with rfl | rfl | rfl | rfl | rfl | rfl | rfl | rfl
  case inr.inl => exact htype
  all_goals first | exact isToken_labelOf _ | exact hwords _ (by simp)

theorem isField_methodLines (h : m.Printable) :
    ∀ line ∈ methodLines m, ∀ t ∈ line, IsField t := by
  have hwords :
      ∀ t ∈ [text ".class", text ".method", text "static", text ".limit",
      text "stack", text "locals", text ".end", text "method"],
        IsToken t := by decide
  have hword := fun t ht => (hwords t ht).isField
  intro line hline
  simp only [methodLines, List.mem_append, List.mem_map, List.mem_cons,
    List.not_mem_nil, or_false] at hline
  rcases hline with
    (((((hclass | rfl) | rfl | rfl) | hparam) | hbody) | ⟨entry, hentry, rfl⟩) |
      rfl
  · rcases h.owner with hempty | htoken
    · simp [hempty] at hclass
    · have hnonempty : m.owner.isEmpty = false := by simpa using htoken.ne_nil
      have hclass : line = [text ".class", m.owner] := by
        simpa [hnonempty] using hclass
      simpa [hclass] using ⟨hword _ (by simp), htoken.isField⟩
  · have hstatic : ∀ t ∈ if m.isStatic then [text "static"] else [],
        IsField t := by
      intro t ht
      cases hm : m.isStatic <;> simp [hm] at ht
      exact ht ▸ hword _ (by simp)
    intro t ht
    simp only [List.cons_append, List.mem_cons, List.mem_append,
      List.not_mem_nil, or_false] at ht
    rcases ht with rfl | ht | rfl
    · exact hword _ (by simp)
    · exact hstatic t ht
    · exact h.nameDesc.isField
  · simpa using ⟨hword _ (by simp), hword _ (by simp), isField_integerText _⟩
  · simpa using ⟨hword _ (by simp), hword _ (by simp), isField_integerText _⟩
  · exact isField_paramLines h.params line hparam
  · exact isField_bodyLines h.instructions line hbody
  · exact isField_handlerLine (h.handlers entry hentry)
  · simpa using ⟨hword _ (by simp), hword _ (by simp)⟩

/-- Assembling undoes printing. -/
theorem parse_print (m : Method) (h : m.Printable) :
    parse (print m) = .ok [m] := by
  have hne : methodLines m ≠ [] := by simp [methodLines]
  have hread : (numberedFrom 1 (methodLines m)).foldlM advance {} = .ok _ :=
    reads_methodLines h
  rw [parse, print, readLines_renderLines hne (isField_methodLines h), hread]
  rfl

/-- A method that looks up an entry by a number, with both kinds of switches, a
call, and a handler that reaches to the end of its code. -/
def lookUp : Method where
  owner := text "Table"
  name := text "lookUp"
  desc := text "(ILjava/util/List;)Ljava/lang/Object;"
  isStatic := false
  maxStack := 2
  maxLocals := 3
  instructions := [
    .var ⟨21⟩ 1, -- iload 1
    .tableSwitch (-1) 1 8 [6, 2, 2],
    .var ⟨25⟩ 2, -- aload 2
    .var ⟨21⟩ 1,
    .method .invokeinterface (text "java/util/List") (text "get")
      (text "(I)Ljava/lang/Object;") true,
    .plain ⟨176⟩, -- areturn
    .constant .string,
    .plain ⟨176⟩,
    .var ⟨21⟩ 1,
    .lookupSwitch 2 [9223372036854775807, -3] [6, 0]]
  handlers := [⟨2, 10, 8, text "java/lang/RuntimeException"⟩, ⟨0, 2, 6, []⟩]
  params := [.unknown, .unknown, .nullable]

theorem printable_lookUp : lookUp.Printable where
  owner := by decide
  name := by decide
  paren := by decide
  desc := by decide
  nameDesc := by decide
  maxStack := by decide
  maxLocals := by decide
  params := by decide
  handlers := by decide
  instructions := by decide +kernel
  length_instructions := by decide
  length_params := by decide

theorem parse_print_lookUp :
    lookUp.Printable ∧ parse (print lookUp) = .ok [lookUp] :=
  ⟨printable_lookUp, parse_print lookUp printable_lookUp⟩

end Assembly
end Nullness
