import Lisplet.Proofs.Evaluation.Session
import Lisplet.Proofs.Reading.SyntaxTree

/-!
# Names are symbols

A frame checks that what it binds, defines or assigns is a symbol.  An abstraction has
checked its parameters by then, and so have a definition and an assignment their names; so
the frame never finds anything wrong, as long as all closures come from abstractions.  In
a session of source texts they do: a text holds no closure, and none is made otherwise.
-/

namespace Lisplet

/-- Every closure in a value, wherever it stands, has symbols for parameters. -/
inductive Value.Named : Value → Prop where
  | number (x : Number) : Named (.number x)
  | boolean (b : Bool) : Named (.boolean b)
  | symbol (name : String) : Named (.symbol name)
  | list {identity : Identity} {items : List Value} :
      (∀ v ∈ items, Named v) → Named (.list identity items)
  | primitive (identity : Identity) (operation : Primitive) : Named (.primitive identity operation)
  | closure {identity : Identity} {parameters : List Value} {body : Value} {scope : FrameId} :
      (∀ v ∈ parameters, SpecialForm.isSymbol v = true) → Named body →
      Named (.closure identity parameters body scope)

@[simp]
theorem Value.named_list_iff {identity : Identity} {items : List Value} :
    (Value.list identity items).Named ↔ ∀ v ∈ items, v.Named :=
  ⟨fun h => by cases h; assumption, .list⟩

/-- Data hold no closures. -/
theorem Datum.holdsOfData_named : HoldsOfData Value.Named where
  number := .number
  boolean := .boolean
  symbol := .symbol
  list _ _ := .list

/-- What a frame refuses to bind, to define or to assign, as it is no symbol. -/
def Failure.RefusesName : Failure → Prop
  | boundNotSymbol _ | cannotDefine _ | cannotAssign _ => True
  | _ => False

theorem Failure.Ordinary.not_refusesName {failure : Failure} (h : failure.Ordinary) :
    ¬ failure.RefusesName := by
  cases failure <;> simp_all [Ordinary, RefusesName]

/-- What cannot be bound is a parameter that is no symbol. -/
theorem Computation.not_isSymbol_of_bindingsOf {parameters arguments : List Value}
    {bindings : Bindings} {other : Value}
    (hresult : bindingsOf parameters arguments bindings = .error other) :
    other ∈ parameters ∧ SpecialForm.isSymbol other = false := by
  fun_induction bindingsOf parameters arguments bindings with
  | case1 bindings name parameters argument arguments ih =>
      exact ⟨List.mem_cons_of_mem _ (ih hresult).1, (ih hresult).2⟩
  | case2 bindings first parameters argument arguments hsymbol =>
      cases hresult
      refine ⟨List.mem_cons_self .., ?_⟩
      cases other with
      | symbol name => exact absurd rfl (hsymbol name)
      | _ => rfl
  | case3 => cases hresult

namespace Discipline

def named : Discipline where
  store s := s.Holds Value.Named
  grows _ _ := True
  value _ v := v.Named
  frame _ _ := True
  code _ v := v.Named
  failure failure := ¬ failure.RefusesName

theorem lawful_named : named.Lawful where
  grows_refl _ := trivial
  grows_trans _ _ := trivial
  value_mono _ hv := hv
  frame_mono _ _ := trivial
  code_mono _ hv := hv
  number _ x := .number x
  boolean _ b := .boolean b
  list_iff := Value.named_list_iff
  renumber _ hs := ⟨hs, trivial⟩
  lookup hs _ hfound := by
    obtain ⟨target, -, hbound⟩ := Store.exists_bound?_of_lookup? hfound
    exact hs target _ _ hbound
  define hs _ hv := ⟨hs.define _ _ hv, trivial⟩
  assign hs _ _ _ hv hassigned := by
    obtain ⟨target, -, rfl⟩ := Store.exists_define_of_assign? hassigned
    exact ⟨hs.define _ _ hv, trivial⟩
  call hs hclosure harguments hbindings := by
    cases hclosure with
    | closure _ hbody =>
        refine ⟨hs.allocate _ fun name v hv => ?_, trivial, trivial, hbody⟩
        exact harguments v (Computation.mem_arguments_of_bindingsOf hbindings hv)
  literal hcode _ _ := hcode
  operator hcode _ := Value.named_list_iff.mp hcode _ (List.mem_cons_self ..)
  operands hcode _ v hv := Value.named_list_iff.mp hcode v (List.mem_cons_of_mem _ hv)
  quoted hcode _ := Value.named_list_iff.mp hcode _ (by simp)
  closure hcode _ hsymbols _ := .closure hsymbols (Value.named_list_iff.mp hcode _ (by simp))
  count _ _ := .inr id
  ordinary := Failure.Ordinary.not_refusesName
  -- a parameter that is no symbol would be one of a closure that is not allowed
  parameter hclosure hresult := by
    obtain ⟨hmem, hother⟩ := Computation.not_isSymbol_of_bindingsOf hresult
    cases hclosure with
    | closure hsymbols _ => simp [hsymbols _ hmem] at hother

theorem founded_named : named.Founded where
  global hs := ⟨hs.allocate none (by simp [Bindings.get?]), trivial, trivial⟩
  primitive _ identity operation := .primitive identity operation

/-- Any text may be run, and if it cannot be read, that is for another reason. -/
theorem readable_named (limit : Nat) (source : Option String) :
    named.Readable (readSource limit source) where
  forms form _ s _ := Datum.holdsOfData_named.load form s.nextIdentity
  failure := by
    intro cause hcause
    obtain rfl | rfl | rfl | rfl := readSource_failure_cases hcause <;> exact id

end Discipline

/-- However it ends, a computation makes no other closures than those with symbols for
parameters, and it does not fail because of a name. -/
def Computation.KeepsNames (computation : Computation Value) (s : Store) : Prop :=
  (computation.after s).Holds Value.Named ∧
    (∀ answer, computation.outcome s = .ok answer → answer.Named) ∧
    ∀ failure, computation.outcome s = .error failure → ¬ failure.RefusesName

theorem Discipline.Keeps.keepsNames {computation : Computation Value} {s : Store}
    (h : named.Keeps named.value computation s) : computation.KeepsNames s := by
  refine ⟨h.after.1, fun answer hanswer => ?_, fun failure hfailure => ?_⟩
  · rw [Computation.outcome] at hanswer
    split at hanswer
    · next hcase =>
        cases hanswer
        exact (h.ok hcase).2.2
    · cases hanswer
  · rw [Computation.outcome] at hfailure
    split at hfailure
    · cases hfailure
    · next hcase =>
        cases hfailure
        exact (h.error hcase).2.2

/-! ## Sessions -/

/-- The interpreters of sessions that run source texts, any number of them in either way
and however each run ends. -/
inductive SourceSession (limit : Nat) : Interpreter → Prop where
  | create : SourceSession limit (Interpreter.create limit)
  | eval {interpreter : Interpreter} (source : Option String) :
      SourceSession limit interpreter → SourceSession limit (interpreter.eval source).2
  | run {interpreter : Interpreter} (breaksOff : Datum → Bool) (source : Option String) :
      SourceSession limit interpreter → SourceSession limit (interpreter.run breaksOff source).2

namespace SourceSession

open Discipline

variable {limit : Nat} {interpreter : Interpreter}

theorem keeps_named (hsession : SourceSession limit interpreter) : interpreter.Keeps named := by
  induction hsession with
  | create =>
      exact Interpreter.keeps_create lawful_named founded_named (Store.holds_empty _) limit
  | eval source _ ih =>
      exact (Interpreter.obeys_eval lawful_named ih (readable_named _ source)).keeps
  | run breaksOff source _ ih =>
      exact (Interpreter.obeys_run lawful_named breaksOff ih (readable_named _ source)).keeps

theorem not_refusesName_of_evalText (hkeeps : interpreter.Keeps named) {source : Option String}
    {failure : Failure} (h : (interpreter.evalText source).1 = .error failure) :
    ¬ failure.RefusesName := by
  have hobeys := Interpreter.obeys_eval lawful_named hkeeps (readable_named _ source)
  change (interpreter.eval source).1.bind (·.datum.write (interpreter.eval source).2.limit) =
    .error failure at h
  cases heval : (interpreter.eval source).1 with
  | error cause =>
      rw [heval] at h hobeys
      cases h
      exact hobeys.failure failure rfl
  | ok v =>
      rw [heval] at h
      exact Interpreter.failure_of_write lawful_named h

/-- In a session of source texts every closure that is bound anywhere, or that a text ends
with, has symbols for parameters, and no frame ever finds that a name is no symbol.  Every
single evaluation and call on the way keeps to this: from stores and values where all
closures are such, it makes no others, and it does not fail because of a name. -/
theorem names_are_symbols (hsession : SourceSession limit interpreter) :
    interpreter.store.Holds Value.Named ∧
      (∀ source,
        (∀ v, (interpreter.eval source).1 = .ok v → v.Named) ∧
        (∀ failure, (interpreter.eval source).1 = .error failure → ¬ failure.RefusesName) ∧
        ∀ failure, (interpreter.evalText source).1 = .error failure → ¬ failure.RefusesName) ∧
      (∀ breaksOff source failure,
        (interpreter.run breaksOff source).1.ending = .failed failure → ¬ failure.RefusesName) ∧
      ∀ (s : Store) (room : Nat) (place : FrameId), s.Holds Value.Named →
        (∀ v, v.Named → (evaluate room v place).KeepsNames s) ∧
        ∀ f arguments, f.Named → (∀ v ∈ arguments, v.Named) →
          (apply room f arguments place).KeepsNames s := by
  have hkeeps := hsession.keeps_named
  refine ⟨hkeeps.store, fun source => ⟨fun v hv => ?_, fun failure hfailed => ?_, ?_⟩,
    fun breaksOff source failure hfailed => ?_, fun s room place hs => ⟨fun v hv => ?_, ?_⟩⟩
  · exact Interpreter.value_of_eval lawful_named hkeeps (readable_named _ source) hv
  · have hobeys := Interpreter.obeys_eval lawful_named hkeeps (readable_named _ source)
    rw [hfailed] at hobeys
    exact hobeys.failure failure rfl
  · exact fun failure hfailed => not_refusesName_of_evalText hkeeps hfailed
  · have hobeys :=
      Interpreter.obeys_run lawful_named breaksOff hkeeps (readable_named _ source)
    rw [hfailed] at hobeys
    exact hobeys.failure failure rfl
  · exact (keeps_evaluate lawful_named hs trivial hv).keepsNames
  · exact fun f arguments hf harguments =>
      (keeps_apply lawful_named hs hf harguments).keepsNames

/-- A procedure that makes closures, a call of it that fails, and a text that ends with one
of its closures. -/
theorem names_are_symbols_nested :
    let session := ((Interpreter.create 100).eval
      (some "(define f (lambda (x) (lambda (y) (list x y)))) (f)")).2
    SourceSession 100 session ∧ session.store.Holds Value.Named ∧
      ∃ v, (session.eval (some "(f 1)")).1 = .ok v ∧ v.isProcedure = true ∧ v.Named := by
  intro session
  have hsession : SourceSession 100 session := .eval _ .create
  obtain ⟨hstore, hsources, -⟩ := names_are_symbols hsession
  have hclosure : (session.eval (some "(f 1)")).1.toOption.any Value.isProcedure = true := by
    decide +kernel
  refine ⟨hsession, hstore, ?_⟩
  cases heval : (session.eval (some "(f 1)")).1 with
  | error failure => simp [heval, Except.toOption] at hclosure
  | ok v =>
      rw [heval] at hclosure
      exact ⟨v, rfl, hclosure, (hsources (some "(f 1)")).1 v heval⟩

end SourceSession

end Lisplet
