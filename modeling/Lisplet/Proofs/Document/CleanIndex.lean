import Lisplet.Document.Index
import Lisplet.Proofs.Document.Agreement
import Lisplet.Proofs.Evaluation.Session

/-!
# Texts with a clean index

The index of a document counts the operands of every special form that stands in code.
The evaluator counts them again when it gets there.  This file proves that the second
count never fails where the first found nothing: all code that an evaluation reaches was
written in a text that has been checked, since quoted data and the values of expressions
are never evaluated.
-/

namespace Lisplet

namespace Value

mutual

/-- Code whose special forms have the right numbers of operands, wherever they are not
quoted. -/
inductive Checked : Value → Prop where
  | number (x : Number) : Checked (.number x)
  | boolean (b : Bool) : Checked (.boolean b)
  | symbol (name : String) : Checked (.symbol name)
  | nothing (identity : Identity) : Checked (.list identity [])
  | quotation {identity : Identity} {head : Value} {operands : List Value} :
      SpecialForm.ofHead? head = some .quotation →
      SpecialForm.quotation.Takes operands.length → (∀ v ∈ operands, Sound v) →
      Checked (.list identity (head :: operands))
  | form {identity : Identity} {head : Value} {operands : List Value} {form : SpecialForm} :
      SpecialForm.ofHead? head = some form → form ≠ .quotation →
      form.Takes operands.length → (∀ v ∈ operands, Checked v) →
      Checked (.list identity (head :: operands))
  | call {identity : Identity} {head : Value} {operands : List Value} :
      SpecialForm.ofHead? head = none → Checked head → (∀ v ∈ operands, Checked v) →
      Checked (.list identity (head :: operands))

/-- Values whose closures all have checked bodies. -/
inductive Sound : Value → Prop where
  | number (x : Number) : Sound (.number x)
  | boolean (b : Bool) : Sound (.boolean b)
  | symbol (name : String) : Sound (.symbol name)
  | list {identity : Identity} {items : List Value} :
      (∀ v ∈ items, Sound v) → Sound (.list identity items)
  | primitive (identity : Identity) (operation : Primitive) : Sound (.primitive identity operation)
  | closure {identity : Identity} {parameters : List Value} {body : Value} {scope : FrameId} :
      Checked body → Sound (.closure identity parameters body scope)

end

end Value

/-! ## The discipline of checked code -/

namespace Failure

/-- The failures that a clean index excludes: a text that cannot be read, and a special
form with a wrong number of operands. -/
def Static (failure : Failure) : Prop :=
  failure.kind = .wrongText ∨ ∃ form, failure = .operandCount form

theorem Ordinary.not_static {failure : Failure} (h : failure.Ordinary) : ¬ failure.Static := by
  cases failure <;> simp_all [Ordinary, Static, kind]

end Failure

namespace Discipline

/-- Only checked code is evaluated, and every binding is sound. -/
def checked : Discipline where
  store s := ∀ place name v, s.bound? place name = some v → v.Sound
  grows _ _ := True
  value _ v := v.Sound
  frame _ _ := True
  code _ v := v.Checked
  failure failure := ¬ failure.Static

theorem lawful_checked : checked.Lawful where
  grows_refl _ := trivial
  grows_trans _ _ := trivial
  value_mono _ hv := hv
  frame_mono _ _ := trivial
  code_mono _ hv := hv
  number _ x := .number x
  boolean _ b := .boolean b
  list_iff := ⟨fun h => by cases h; assumption, .list⟩
  renumber _ hs := ⟨hs, trivial⟩
  lookup hs _ hfound := by
    obtain ⟨target, -, hbound⟩ := Store.exists_bound?_of_lookup? hfound
    exact hs target _ _ hbound
  define hs _ hv := ⟨Store.Holds.define hs _ _ hv, trivial⟩
  assign hs _ _ _ hv hassigned := by
    obtain ⟨target, -, rfl⟩ := Store.exists_define_of_assign? hassigned
    exact ⟨Store.Holds.define hs _ _ hv, trivial⟩
  call := by
    intro s identity parameters body scope arguments bindings hs hclosure harguments hbindings
    have hbound (name : String) (v : Value) (hv : bindings.get? name = some v) : v.Sound :=
      harguments v (Computation.mem_arguments_of_bindingsOf hbindings hv)
    cases hclosure with
    | closure hbody => exact ⟨Store.Holds.allocate hs _ hbound, trivial, trivial, hbody⟩
  literal := by
    intro s v hcode hsymbol hlist
    cases hcode with
    | number x => exact .number x
    | boolean b => exact .boolean b
    | symbol name => exact absurd rfl (hsymbol name)
    | nothing identity => exact .list (by simp)
    | quotation | form | call => exact absurd rfl (hlist _ _ _)
  operator := by
    intro s identity head operands hcode hnone
    cases hcode with
    | quotation hsome | form hsome => simp [hnone] at hsome
    | call _ hhead _ => exact hhead
  operands := by
    intro s identity head operands hcode hother
    cases hcode with
    | quotation hsome => exact absurd hsome hother
    | form _ _ _ hoperands => exact hoperands
    | call _ _ hoperands => exact hoperands
  quoted := by
    intro s identity head datum hcode hsome
    cases hcode with
    | quotation _ _ hoperands => exact hoperands datum (List.mem_singleton_self datum)
    | form hform hother => simp_all
    | call hnone => simp [hsome] at hnone
  closure := by
    intro s identity head fresh inner parameters body place hcode hsome _ _
    cases hcode with
    | quotation hform => simp [hsome] at hform
    | form _ _ _ hoperands => exact .closure (hoperands body (by simp))
    | call hnone => simp [hsome] at hnone
  count := by
    intro s identity head operands form hcode hsome
    cases hcode with
    | quotation hform hcount =>
        rw [hsome] at hform
        exact .inl (Option.some.inj hform ▸ hcount)
    | form hform _ hcount =>
        rw [hsome] at hform
        exact .inl (Option.some.inj hform ▸ hcount)
    | call hnone => simp [hsome] at hnone
  ordinary := Failure.Ordinary.not_static
  parameter _ _ shown := by simp [checked, Failure.Static, Failure.kind]

theorem founded_checked : checked.Founded where
  global hs := ⟨Store.Holds.allocate hs none (by simp [Bindings.get?]), trivial, trivial⟩
  primitive _ identity operation := .primitive identity operation

end Discipline

/-! ## Loading what was checked -/

namespace Datum

@[simp]
theorem length_loadAll (items : List Datum) (next : Identity) :
    (loadAll items next).1.length = items.length := by
  induction items generalizing next with
  | nil => rfl
  | cons item items ih => simp [loadAll, ih]

/-- Data hold no closures. -/
theorem holdsOfData_sound : HoldsOfData Value.Sound where
  number := .number
  boolean := .boolean
  symbol := .symbol
  list _ _ := .list

end Datum

namespace Document

/-- The index and the evaluator ask for the same numbers of operands. -/
theorem acceptsOperands_iff (form : SpecialForm) (count : Nat) :
    acceptsOperands form count = true ↔ form.Takes count := by
  have hbounds : acceptsOperands form count = true ↔
      (operandBounds form).1 ≤ count ∧
        ∀ most, (operandBounds form).2 = some most → count ≤ most := by
    rw [acceptsOperands, Bool.and_eq_true, Option.all_eq_true]
    simp only [decide_eq_true_eq]
  rw [hbounds]
  cases form with
  | sequence => simp [operandBounds, SpecialForm.Takes]
  | quotation | conditional | definition | assignment | abstraction =>
      simp only [operandBounds, SpecialForm.Takes, Option.some.injEq, forall_eq']
      omega

/-- A keyword denotes a symbol, so that the index and the evaluator see the same special
forms. -/
@[simp]
theorem ofHead?_load_ofToken (token : String) (next : Identity) :
    SpecialForm.ofHead? ((Datum.ofToken token).load next).1 = SpecialForm.ofKeyword? token := by
  cases hform : SpecialForm.ofKeyword? token with
  | some form =>
      obtain rfl := SpecialForm.keyword_of_ofKeyword? hform
      cases form <;> rfl
  | none =>
      rw [Datum.ofToken]
      repeat' split
      all_goals first
        | exact hform
        | rfl

namespace Node

/-- The special form of a list of nodes is that of the list they are loaded as. -/
theorem ofHead?_load_datum (node : Node) (nodes : List Node) (next : Identity) :
    SpecialForm.ofHead? (node.datum.load next).1 = (headForm? (node :: nodes)).map Prod.fst := by
  cases node with
  | atom place token =>
      rw [datum, ofHead?_load_ofToken, headForm?, Option.map_map]
      exact (Option.map_id' ..).symm
  | list place children closed => rfl

theorem problems_of_problemsAll {nodes : List Node} (hproblems : problemsAll nodes = [])
    {node : Node} (hnode : node ∈ nodes) : node.problems = [] := by
  induction nodes with
  | nil => cases hnode
  | cons first nodes ih =>
      rw [problemsAll, List.append_eq_nil_iff] at hproblems
      rcases List.mem_cons.mp hnode with rfl | hlater
      · exact hproblems.1
      · exact ih hproblems.2 hlater

/-- A closed list without problems of its own has a number of operands that its form
takes. -/
theorem takes_of_ownProblems {children : List Node} {form : SpecialForm} {place : Place}
    (hform : headForm? children = some (form, place))
    (hproblems : ownProblems children true = []) :
    form.Takes (children.length - 1) := by
  rw [ownProblems, hform] at hproblems
  by_contra hcount
  rw [← acceptsOperands_iff] at hcount
  simp [hcount] at hproblems

mutual

/-- A node without problems is loaded as checked code. -/
theorem checked_load : (node : Node) → node.problems = [] → node.openPlaces = [] →
    (next : Identity) → (node.datum.load next).1.Checked
  | atom _ token, _, _, next => by
    rw [datum, Datum.ofToken]
    repeat' split
    all_goals rw [Datum.load]
    · exact .number _
    · exact .boolean _
    · exact .boolean _
    · exact .nothing _
    · exact .symbol _
  | list place [] closed, _, _, next => .nothing next
  | list place (head :: operands) closed, hproblems, hopen, next => by
    rw [problems, List.append_eq_nil_iff] at hproblems
    rw [openPlaces, List.append_eq_nil_iff, openPlacesAll, List.append_eq_nil_iff] at hopen
    obtain ⟨hown, hinner⟩ := hproblems
    obtain ⟨hclosed, hhead, hoperands⟩ := hopen
    obtain rfl : closed = true := by
      by_contra hnot
      simp [hnot] at hclosed
    have hofHead := ofHead?_load_datum head operands (next + 1)
    have hlength := Datum.length_loadAll (datumAll operands) (head.datum.load (next + 1)).2
    rw [datumAll_eq_map, List.length_map] at hlength
    rw [datum, datumAll, Datum.load, Datum.loadAll]
    cases hform : headForm? (head :: operands) with
    | none =>
        rw [holdsCode, hform, if_pos rfl, problemsAll, List.append_eq_nil_iff] at hinner
        exact .call (hofHead.trans (by rw [hform]; rfl)) (checked_load head hinner.1 hhead _)
          (checked_loadAll operands hinner.2 hoperands _)
    | some entry =>
        obtain ⟨form, keyword⟩ := entry
        have hcount := takes_of_ownProblems hform hown
        rw [List.length_cons, Nat.add_sub_cancel, ← hlength, ← datumAll_eq_map] at hcount
        by_cases hquoted : form = .quotation
        · subst hquoted
          exact .quotation (hofHead.trans (by rw [hform]; rfl)) hcount
            (Datum.holdsOfData_sound.loadAll _ _)
        · have hcode : holdsCode (head :: operands) = true := by
            rw [holdsCode, hform]
            cases form with
            | quotation => exact absurd rfl hquoted
            | _ => rfl
          rw [if_pos hcode, problemsAll, List.append_eq_nil_iff] at hinner
          exact .form (hofHead.trans (by rw [hform]; rfl)) hquoted hcount
            (checked_loadAll operands hinner.2 hoperands _)

theorem checked_loadAll : (nodes : List Node) → problemsAll nodes = [] →
    openPlacesAll nodes = [] → (next : Identity) →
    ∀ v ∈ (Datum.loadAll (datumAll nodes) next).1, v.Checked
  | [], _, _, _ => by simp [datumAll, Datum.loadAll]
  | node :: nodes, hproblems, hopen, next => by
    rw [problemsAll, List.append_eq_nil_iff] at hproblems
    rw [openPlacesAll, List.append_eq_nil_iff] at hopen
    rw [datumAll, Datum.loadAll]
    exact List.forall_mem_cons.mpr ⟨checked_load node hproblems.1 hopen.1 next,
      checked_loadAll nodes hproblems.2 hopen.2 _⟩

end

end Node

/-! ## Clean texts -/

/-- A text has an index, and the index has no problem. -/
def Clean (text : String) : Prop :=
  ∃ limit index, Index.ofDocument limit text.toList = .ok index ∧ index.problems = []

theorem clean_iff (text : String) :
    Clean text ↔ (NodeReading.ofDocument text.toList).problems = [] ∧
      Node.problemsAll (NodeReading.ofDocument text.toList).nodes = [] := by
  constructor
  · rintro ⟨limit, index, hindex, hproblems⟩
    rw [Index.ofDocument] at hindex
    dsimp only at hindex
    split at hindex
    · cases hindex
      have hlength := congrArg List.length hproblems
      rw [List.length_mergeSort, List.length_nil, List.length_eq_zero_iff] at hlength
      exact List.append_eq_nil_iff.mp hlength
    · cases hindex
  · rintro ⟨hreading, hnodes⟩
    refine ⟨Node.checkingDepthAll (NodeReading.ofDocument text.toList).nodes, ?_⟩
    rw [Index.ofDocument]
    simp only [Nat.le_refl, if_true, hreading, hnodes, List.append_nil, List.mergeSort_nil]
    exact ⟨_, rfl, rfl⟩

/-- Where the tolerant reading finds nothing wrong, the strict one gives the data of its
nodes, all of them unless it runs out of room. -/
theorem readForms_of_problems_nil {limit : Nat} {cs : List Char}
    (hproblems : (NodeReading.ofDocument cs).problems = []) :
    (readForms limit (Token.split cs)).forms <+:
        (NodeReading.ofDocument cs).nodes.map Node.datum ∧
      ∀ failure, (readForms limit (Token.split cs)).failure = some failure →
        failure = .depthExceeded := by
  obtain ⟨trees, remnant, nodes, hsplit, hdata, hreports⟩ := NodeReading.exists_outline cs
  cases remnant with
  | stray later =>
      obtain ⟨problem, hmem, -⟩ := hreports
      rw [hproblems] at hmem
      cases hmem
  | unclosed children inner => exact absurd hproblems hreports.1
  | nothing =>
      rw [hreports.2, List.reverse_reverse, hdata, hsplit]
      by_cases hdepth : SyntaxTree.depthAll trees ≤ limit
      · rw [SyntaxTree.readForms_tokensAll trees _ hdepth]
        simp [Remnant.tokens, SyntaxTree.readForms_nil]
      · obtain ⟨hfailure, hforms⟩ :=
          SyntaxTree.readForms_tokensAll_deep trees Remnant.nothing.tokens
            (Nat.lt_of_not_le hdepth)
        refine ⟨hforms, fun failure hsome => ?_⟩
        rw [hfailure] at hsome
        exact (Option.some.inj hsome).symm

/-- The forms of a clean text are checked code, whatever store they are loaded into. -/
theorem form_of_clean {text : String} (hclean : Clean text) (limit : Nat) :
    ∀ form ∈ (readSource limit (some text)).forms, Discipline.checked.form form := by
  intro form hform s _
  obtain ⟨hreading, hnodes⟩ := (clean_iff text).mp hclean
  have hopen := NodeReading.filter_unclosed_ofDocument text.toList
  rw [hreading, List.filter_nil] at hopen
  have hclosed := List.map_eq_nil_iff.mp hopen.symm
  obtain ⟨node, hnode, rfl⟩ :=
    List.mem_map.mp ((readForms_of_problems_nil hreading).1.subset hform)
  rw [Node.openPlacesAll_eq_flatMap, List.flatMap_eq_nil_iff] at hclosed
  exact Node.checked_load node (Node.problems_of_problemsAll hnodes hnode) (hclosed node hnode) _

/-- The interpreters of sessions that run clean texts only, in any number and either
way. -/
inductive CleanSession (limit : Nat) : Interpreter → Prop where
  | create : CleanSession limit (Interpreter.create limit)
  | eval {interpreter : Interpreter} {text : String} : CleanSession limit interpreter →
      Clean text → CleanSession limit (interpreter.eval (some text)).2
  | run {interpreter : Interpreter} {text : String} {breaksOff : Datum → Bool} :
      CleanSession limit interpreter → Clean text →
      CleanSession limit (interpreter.run breaksOff (some text)).2

section Sessions

variable {limit : Nat} {interpreter : Interpreter} {text : String}

/-- What a reading of a clean text gives can be run. -/
theorem readable_of_clean (hclean : Clean text) (limit : Nat) :
    Discipline.checked.Readable (readSource limit (some text)) where
  forms := form_of_clean hclean limit
  failure := by
    intro cause hcause
    rw [(readForms_of_problems_nil ((clean_iff text).mp hclean).1).2 cause hcause]
    exact Failure.Ordinary.not_static trivial

theorem CleanSession.keeps (hsession : CleanSession limit interpreter) :
    interpreter.Keeps Discipline.checked := by
  induction hsession with
  | create =>
      exact Interpreter.keeps_create Discipline.lawful_checked Discipline.founded_checked
        (Store.holds_empty Value.Sound) limit
  | eval _ hclean ih =>
      exact (Interpreter.obeys_eval Discipline.lawful_checked ih
        (readable_of_clean hclean _)).keeps
  | run _ hclean ih =>
      exact (Interpreter.obeys_run Discipline.lawful_checked _ ih
        (readable_of_clean hclean _)).keeps

/-- In a session of clean texts no text fails to be read, and no special form gets a
wrong number of operands, on whatever path an evaluation reaches it. -/
theorem CleanSession.excludes_static (hsession : CleanSession limit interpreter)
    (hclean : Clean text) :
    (∀ failure, (interpreter.eval (some text)).1 = .error failure →
        failure.kind ≠ .wrongText ∧ ∀ form, failure ≠ .operandCount form) ∧
      ∀ breaksOff failure, (interpreter.run breaksOff (some text)).1.ending = .failed failure →
        failure.kind ≠ .wrongText ∧ ∀ form, failure ≠ .operandCount form := by
  have hexcluded {failure : Failure} (h : ¬ failure.Static) :
      failure.kind ≠ .wrongText ∧ ∀ form, failure ≠ .operandCount form :=
    ⟨fun hkind => h (.inl hkind), fun form hform => h (.inr ⟨form, hform⟩)⟩
  have hreadable := readable_of_clean hclean interpreter.limit
  constructor
  · intro failure hfailed
    have hobeys := Interpreter.obeys_eval Discipline.lawful_checked hsession.keeps hreadable
    rw [hfailed] at hobeys
    exact hexcluded (hobeys.failure failure rfl)
  · intro breaksOff failure hfailed
    have hobeys :=
      Interpreter.obeys_run Discipline.lawful_checked breaksOff hsession.keeps hreadable
    rw [hfailed] at hobeys
    exact hexcluded (hobeys.failure failure rfl)

/-- A procedure that answers with quoted data, which is no code for the index, and a
call of it. -/
theorem CleanSession.excludes_static_quoted :
    let defined :=
      ((Interpreter.create 1000).eval (some "(define f (lambda (x) (quote (if x))))")).2
    CleanSession 1000 defined ∧ Clean "(map f (quote (1 (2 3))))" ∧
      ∀ breaksOff failure,
        (defined.run breaksOff (some "(map f (quote (1 (2 3))))")).1.ending = .failed failure →
          failure.kind ≠ .wrongText ∧ ∀ form, failure ≠ .operandCount form := by
  have hdefinition : Clean "(define f (lambda (x) (quote (if x))))" :=
    (clean_iff _).mpr ⟨by decide +kernel, by decide +kernel⟩
  have hcall : Clean "(map f (quote (1 (2 3))))" :=
    (clean_iff _).mpr ⟨by decide +kernel, by decide +kernel⟩
  have hsession := CleanSession.eval (.create : CleanSession 1000 _) hdefinition
  exact ⟨hsession, hcall, (CleanSession.excludes_static hsession hcall).2⟩

end Sessions

end Document

end Lisplet
