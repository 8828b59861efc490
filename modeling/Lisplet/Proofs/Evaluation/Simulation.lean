import Mathlib.Data.List.Basic
import Lisplet.Proofs.Evaluation.Pairing

/-!
# Two runs of the evaluator stay side by side

One induction on the room serves all pairings.  Its cases are the rules of the primitives
and of the special forms, which are stated for any two ways of evaluating that agree with
less room.
-/

namespace Lisplet

/-! ## Structural equality -/

namespace Value

mutual

/-- More room does not change an answer. -/
theorem sameWithin?_mono {room more : Nat} (hle : room ≤ more) : {a b : Value} →
    {answer : Bool} → a.sameWithin? room b = some answer → a.sameWithin? more b = some answer
  | list i xs, list j ys, answer, h => by
    rw [sameWithin?] at h ⊢
    split at h
    · next hidentity => rwa [if_pos hidentity]
    · next hidentity =>
        rw [if_neg hidentity]
        split at h
        · cases h
        · next hroom =>
            rw [if_neg (by omega)]
            exact sameAllWithin?_mono (Nat.sub_le_sub_right hle _) h
  | number _, _, _, h | boolean _, _, _, h | symbol _, _, _, h
  | primitive .., _, _, h | closure .., _, _, h
  | list .., number _, _, h | list .., boolean _, _, h | list .., symbol _, _, h
  | list .., primitive .., _, h | list .., closure .., _, h => h

theorem sameAllWithin?_mono {room more : Nat} (hle : room ≤ more) : {xs ys : List Value} →
    {answer : Bool} → sameAllWithin? room xs ys = some answer →
    sameAllWithin? more xs ys = some answer
  | x :: xs, y :: ys, answer, h => by
    rw [sameAllWithin?] at h ⊢
    split at h
    · next hfirst =>
        rw [sameWithin?_mono hle hfirst]
        exact sameAllWithin?_mono hle h
    · next hfirst =>
        rw [sameWithin?_mono hle h]
        cases answer with
        | true => exact absurd h hfirst
        | false => rfl
  | [], _, _, h | _ :: _, [], _, h => h

end

end Value

namespace Pairing

variable {P : Pairing} {m : P.Moment} {room more : Nat}

/-! ## Primitives -/

section Primitives

open Primitive

theorem agree_unary (hP : P.Lawful) {operation : Primitive} {arguments : List Value}
    {first second : Value → Computation Value}
    (hbody : ∀ x, arguments = [x] →
      P.Agree P.value (Value.rename P.names) (first x) (second (x.rename P.names)) m) :
    P.Agree P.value (Value.rename P.names) (unary operation arguments first)
      (unary operation (arguments.map (Value.rename P.names)) second) m := by
  match arguments with
  | [x] => exact hbody x rfl
  | [] => exact .throw hP (hP.ordinary trivial)
  | x :: y :: rest =>
      rw [unary, unary, List.length_map]
      · exact .throw hP (hP.ordinary trivial)
      all_goals simp

theorem agree_binary (hP : P.Lawful) {operation : Primitive} {arguments : List Value}
    {first second : Value → Value → Computation Value}
    (hbody : ∀ x y, arguments = [x, y] →
      P.Agree P.value (Value.rename P.names) (first x y)
        (second (x.rename P.names) (y.rename P.names)) m) :
    P.Agree P.value (Value.rename P.names) (binary operation arguments first)
      (binary operation (arguments.map (Value.rename P.names)) second) m := by
  match arguments with
  | [x, y] => exact hbody x y rfl
  | [] | [x] => exact .throw hP (hP.ordinary trivial)
  | x :: y :: z :: rest =>
      rw [binary, binary, List.length_map]
      · exact .throw hP (hP.ordinary trivial)
      all_goals simp

/-- The number that a value is. -/
theorem agree_expectNumber (hP : P.Lawful) (hfits : P.Fits room more) (operation : Primitive)
    (v : Value) :
    P.Agree (fun _ _ => True) (Number.rename P.names) (expectNumber room operation v)
      (expectNumber more operation (v.rename P.names)) m := by
  cases v with
  | number x => exact .pure hP trivial
  | _ => exact .refuse hP hfits (fun _ => rfl) fun _ => hP.ordinary trivial

theorem agree_expectNumbers (hP : P.Lawful) (hfits : P.Fits room more) (operation : Primitive)
    (x y : Value) :
    P.Agree (fun _ _ => True) (Prod.map (Number.rename P.names) (Number.rename P.names))
      (expectNumbers room operation x y)
      (expectNumbers more operation (x.rename P.names) (y.rename P.names)) m := by
  apply Agree.bind hP (agree_expectNumber hP hfits operation x)
  intro n _ _ _
  apply Agree.bind hP (agree_expectNumber hP hfits operation y)
  intro o _ _ _
  exact .pure hP trivial

theorem agree_expectList (hP : P.Lawful) (hfits : P.Fits room more) (operation : Primitive)
    {v : Value} (hv : P.value m v) :
    P.Agree P.values (List.map (Value.rename P.names)) (expectList room operation v)
      (expectList more operation (v.rename P.names)) m := by
  cases v with
  | list identity items =>
      rw [Value.rename_list]
      exact .pure hP (hP.list_iff.mp hv).2
  | _ => exact .refuse hP hfits (fun _ => rfl) fun _ => hP.ordinary trivial

theorem agree_expectBoolean (hP : P.Lawful) (hfits : P.Fits room more) (operation : Primitive)
    (v : Value) :
    P.Agree (fun _ _ => True) id (expectBoolean room operation v)
      (expectBoolean more operation (v.rename P.names)) m := by
  cases v with
  | boolean b => exact .pure hP trivial
  | _ => exact .refuse hP hfits (fun _ => rfl) fun _ => hP.ordinary trivial

theorem agree_toNumber (hP : P.Lawful) (outcome : Number.Outcome) :
    P.Agree (fun n x => P.value n (.number x)) (Number.rename P.names) outcome.toNumber
      outcome.toNumber m := by
  cases outcome with
  | real x => exact .pure hP (hP.number nofun)
  | shared =>
      have hmark : P.names.identity Number.sharedMark = Number.sharedMark := P.names.identity_zero
      refine .ok (.nan Number.sharedMark) m rfl ?_ (hP.grows_refl m) (hP.number ?_)
      · rw [Number.rename, hmark]
        rfl
      · exact fun mark h => Number.nan.inj h ▸ hP.identity_zero m
  | fresh =>
      apply Agree.bind hP (Agree.freshIdentity hP)
      intro n mark _ hmark
      exact .pure hP (hP.number fun other hother => Number.nan.inj hother ▸ hmark)

/-- Comparing two values never fails for another cause than a lack of room. -/
theorem agree_sameWithin? (hP : P.Lawful) (hfits : P.Fits room more) (x y : Value) :
    P.Agree P.value (Value.rename P.names)
      (match x.sameWithin? room y with
        | some answer => pure (.boolean answer)
        | none => throw .depthExceeded : Computation Value)
      (match (x.rename P.names).sameWithin? more (y.rename P.names) with
        | some answer => pure (.boolean answer)
        | none => throw .depthExceeded) m := by
  rw [Value.sameWithin?_rename]
  cases hsame : x.sameWithin? room y with
  | some answer =>
      rw [Value.sameWithin?_mono hfits.le hsame]
      exact .pure hP (hP.boolean m answer)
  | none =>
      rcases hfits with rfl | ⟨hroomier, -⟩
      · rw [hsame]
        exact .throw hP (hP.ordinary trivial)
      · exact .excused _ rfl hroomier

/-- The runs of a primitive agree if the ways of applying procedures that they are given
do. -/
theorem agree_run (hP : P.Lawful) (hfits : P.Fits room more)
    {apply apply' : Value → List Value → Computation Value}
    {applyEach applyEach' : Value → List Value → Computation (List Value)}
    (hApply : ∀ n f vs, P.value n f → P.values n vs →
      P.Agree P.value (Value.rename P.names) (apply f vs)
        (apply' (f.rename P.names) (vs.map (Value.rename P.names))) n)
    (hApplyEach : ∀ n f vs, P.value n f → P.values n vs →
      P.Agree P.values (List.map (Value.rename P.names)) (applyEach f vs)
        (applyEach' (f.rename P.names) (vs.map (Value.rename P.names))) n)
    (operation : Primitive) {arguments : List Value} (harguments : P.values m arguments) :
    P.Agree P.value (Value.rename P.names) (operation.run room apply applyEach arguments)
      (operation.run more apply' applyEach' (arguments.map (Value.rename P.names))) m := by
  have harg₁ (x : Value) (h : arguments = [x]) : P.value m x := harguments x (by simp [h])
  have harg₂ (x y : Value) (h : arguments = [x, y]) : P.value m x ∧ P.value m y :=
    ⟨harguments x (by simp [h]), harguments y (by simp [h])⟩
  cases operation with
  | arithmetic kind =>
      apply agree_binary hP
      intro x y _
      apply Agree.bind hP (agree_expectNumbers hP hfits _ x y)
      rintro n ⟨first, second⟩ _ _
      dsimp only [Prod.map_apply]
      rw [kind.outcome_rename]
      apply Agree.bind hP (agree_toNumber hP _)
      intro o _ _ hnumber
      exact .pure hP hnumber
  | comparison relation =>
      apply agree_binary hP
      intro x y _
      apply Agree.bind hP (agree_expectNumbers hP hfits _ x y)
      rintro n ⟨first, second⟩ _ _
      dsimp only [Prod.map_apply]
      rw [relation.holds_rename]
      exact .pure hP (hP.boolean n _)
  | variant test =>
      apply agree_unary hP
      intro x _
      rw [x.isVariant_rename]
      exact .pure hP (hP.boolean m _)
  | car =>
      apply agree_unary hP
      intro x hx
      apply Agree.bind hP (agree_expectList hP hfits _ (harg₁ x hx))
      intro n items _ hitems
      cases items with
      | nil => exact .throw hP (hP.ordinary trivial)
      | cons item items => exact .pure hP (hitems _ (List.mem_cons_self ..))
  | cdr =>
      apply agree_unary hP
      intro x hx
      apply Agree.bind hP (agree_expectList hP hfits _ (harg₁ x hx))
      intro n items _ hitems
      cases items with
      | nil => exact .throw hP (hP.ordinary trivial)
      | cons item items => exact .newList hP (List.forall_mem_cons.mp hitems).2
  | cons =>
      apply agree_binary hP
      intro x y hxy
      obtain ⟨hx, hy⟩ := harg₂ x y hxy
      apply Agree.bind hP (agree_expectList hP hfits _ hy)
      intro n items hgrows hitems
      rw [← List.map_cons]
      exact .newList hP (List.forall_mem_cons.mpr ⟨hP.value_mono hgrows hx, hitems⟩)
  | append =>
      apply agree_binary hP
      intro x y hxy
      obtain ⟨hx, hy⟩ := harg₂ x y hxy
      apply Agree.bind hP (agree_expectList hP hfits _ hx)
      intro n front hgrows hfront
      apply Agree.bind hP (agree_expectList hP hfits _ (hP.value_mono hgrows hy))
      intro o back hlater hback
      rw [← List.map_append]
      refine Agree.newList hP (List.forall_mem_append.mpr ⟨fun v hv => ?_, hback⟩)
      exact hP.value_mono hlater (hfront v hv)
  | list => exact .newList hP harguments
  | length =>
      apply agree_unary hP
      intro x hx
      apply Agree.bind hP (agree_expectList hP hfits _ (harg₁ x hx))
      intro n items _ _
      rw [List.length_map]
      exact .pure hP (hP.number nofun)
  | not =>
      apply agree_unary hP
      intro x _
      apply Agree.bind hP (agree_expectBoolean hP hfits _ x)
      intro n b _ _
      exact .pure hP (hP.boolean n _)
  | identical =>
      apply agree_binary hP
      intro x y _
      rw [x.identical_rename]
      exact .pure hP (hP.boolean m _)
  | equal => exact agree_binary hP fun x y _ => agree_sameWithin? hP hfits x y
  | map =>
      apply agree_binary hP
      intro procedure xs hxs
      obtain ⟨hprocedure, hlist⟩ := harg₂ procedure xs hxs
      apply Agree.bind hP (agree_expectList hP hfits _ hlist)
      intro n items hgrows hitems
      apply Agree.bind hP (hApplyEach n procedure items (hP.value_mono hgrows hprocedure) hitems)
      intro o results _ hresults
      exact .newList hP hresults
  | apply =>
      apply agree_binary hP
      intro procedure xs hxs
      obtain ⟨hprocedure, hlist⟩ := harg₂ procedure xs hxs
      apply Agree.bind hP (agree_expectList hP hfits _ hlist)
      intro n items hgrows hitems
      exact hApply n procedure items (hP.value_mono hgrows hprocedure) hitems

end Primitives

/-! ## Special forms -/

section SpecialForms

open SpecialForm

variable {evaluate evaluate' : Value → Computation Value} {identity : Identity} {head : Value}
  {operands : List Value} {place : FrameId}

/-- The failure of a special form that got a wrong number of operands. -/
theorem agree_operandCount (hP : P.Lawful) {form : SpecialForm}
    (hcode : P.code m (.list identity (head :: operands))) (hhead : ofHead? head = some form)
    (hcount : ¬ form.Takes operands.length) :
    P.Agree P.value (Value.rename P.names) (throw (.operandCount form) : Computation Value)
      (throw (.operandCount form)) m :=
  .throw hP ((hP.count hcode hhead).resolve_left hcount)

theorem agree_quote (hP : P.Lawful) (hcode : P.code m (.list identity (head :: operands)))
    (hhead : ofHead? head = some .quotation) :
    P.Agree P.value (Value.rename P.names) (quote operands)
      (quote (operands.map (Value.rename P.names))) m := by
  match operands with
  | [datum] => exact .pure hP (hP.quoted hcode hhead)
  | [] | _ :: _ :: _ => exact agree_operandCount hP hcode hhead (by simp [Takes])

theorem agree_branch (hP : P.Lawful) (hfits : P.Fits room more)
    (heval : ∀ n v, P.grows m n → P.code n v →
      P.Agree P.value (Value.rename P.names) (evaluate v) (evaluate' (v.rename P.names)) n)
    (hcode : P.code m (.list identity (head :: operands)))
    (hhead : ofHead? head = some .conditional) :
    P.Agree P.value (Value.rename P.names) (branch room evaluate operands)
      (branch more evaluate' (operands.map (Value.rename P.names))) m := by
  have hoperands := hP.operands hcode (by simp [hhead])
  match operands with
  | [test, consequent, alternative] =>
      apply Agree.bind hP (heval m test (hP.grows_refl m) (hoperands _ (by simp)))
      intro n decision hgrows _
      cases decision with
      | boolean b =>
          cases b with
          | true => exact heval n _ hgrows (hP.code_mono hgrows (hoperands _ (by simp)))
          | false => exact heval n _ hgrows (hP.code_mono hgrows (hoperands _ (by simp)))
      | _ => exact .refuse hP hfits (fun _ => rfl) fun _ => hP.ordinary trivial
  | [] | [_] | [_, _] | _ :: _ :: _ :: _ :: _ =>
      exact agree_operandCount hP hcode hhead (by simp [Takes])

/-- The value of an expression is bound in some way, and nothing is shown. -/
theorem agree_binding (hP : P.Lawful) {expression : Value} {bind bind' : Value → Computation Unit}
    (heval : P.Agree P.value (Value.rename P.names) (evaluate expression)
      (evaluate' (expression.rename P.names)) m)
    (hbind : ∀ n v, P.grows m n → P.value n v →
      P.Agree (fun _ _ => True) id (bind v) (bind' (v.rename P.names)) n) :
    P.Agree P.value (Value.rename P.names)
      (do
        bind (← evaluate expression)
        return Value.nothing)
      (do
        bind' (← evaluate' (expression.rename P.names))
        return Value.nothing) m := by
  have hnothing : Value.nothing.rename P.names = Value.nothing := by
    rw [Value.nothing, Value.rename_list, P.names.identity_zero, List.map_nil]
  apply Agree.bind hP heval
  intro n v hgrows hv
  apply Agree.bind hP (hbind n v hgrows hv)
  intro o _ _ _
  have hvalue : P.value o Value.nothing := hP.list_iff.mpr ⟨hP.identity_zero o, by simp⟩
  exact .ok _ o rfl (by rw [hnothing]; rfl) (hP.grows_refl o) hvalue

theorem agree_bindHere (hP : P.Lawful) (hfits : P.Fits room more)
    (heval : ∀ n v, P.grows m n → P.code n v →
      P.Agree P.value (Value.rename P.names) (evaluate v) (evaluate' (v.rename P.names)) n)
    (hplace : P.frame m place) (hcode : P.code m (.list identity (head :: operands)))
    (hhead : ofHead? head = some .definition) :
    P.Agree P.value (Value.rename P.names) (bindHere room evaluate operands place)
      (bindHere more evaluate' (operands.map (Value.rename P.names)) (P.names.place place)) m := by
  have hoperands := hP.operands hcode (by simp [hhead])
  match operands with
  | [name, expression] =>
      cases name with
      | symbol name =>
          have hname := hoperands (.symbol _) (List.mem_cons_self ..)
          have hvalue := heval m expression (hP.grows_refl m) (hoperands _ (by simp))
          exact agree_binding hP hvalue fun n v hgrows hv =>
            .define hP (hP.frame_mono hgrows hplace) (hP.code_mono hgrows hname) hv
      | _ => exact .refuse hP hfits (fun _ => rfl) fun _ => hP.ordinary trivial
  | [] | [_] | _ :: _ :: _ :: _ => exact agree_operandCount hP hcode hhead (by simp [Takes])

theorem agree_rebind (hP : P.Lawful) (hfits : P.Fits room more)
    (heval : ∀ n v, P.grows m n → P.code n v →
      P.Agree P.value (Value.rename P.names) (evaluate v) (evaluate' (v.rename P.names)) n)
    (hplace : P.frame m place) (hcode : P.code m (.list identity (head :: operands)))
    (hhead : ofHead? head = some .assignment) :
    P.Agree P.value (Value.rename P.names) (rebind room evaluate operands place)
      (rebind more evaluate' (operands.map (Value.rename P.names)) (P.names.place place)) m := by
  have hoperands := hP.operands hcode (by simp [hhead])
  match operands with
  | [name, expression] =>
      cases name with
      | symbol name =>
          have hvalue := heval m expression (hP.grows_refl m) (hoperands _ (by simp))
          exact agree_binding hP hvalue fun n v hgrows hv =>
            .assign hP (hP.frame_mono hgrows hplace) (hP.code_mono hgrows hcode) hhead hv
      | _ => exact .refuse hP hfits (fun _ => rfl) fun _ => hP.ordinary trivial
  | [] | [_] | _ :: _ :: _ :: _ => exact agree_operandCount hP hcode hhead (by simp [Takes])

theorem agree_close (hP : P.Lawful) (hfits : P.Fits room more) (hplace : P.frame m place)
    (hcode : P.code m (.list identity (head :: operands)))
    (hhead : ofHead? head = some .abstraction) :
    P.Agree P.value (Value.rename P.names) (close room operands place)
      (close more (operands.map (Value.rename P.names)) (P.names.place place)) m := by
  match operands with
  | [parameters, body] =>
      cases parameters with
      | list inner parameters =>
          rw [List.map_cons, Value.rename_list, List.map_cons, List.map_nil, close, close,
            Value.find?_not_isSymbol_rename]
          cases hfind : parameters.find? (!isSymbol ·) with
          | some other => exact .refuse hP hfits (fun _ => rfl) fun _ => hP.ordinary trivial
          | none =>
              have hsymbols (v : Value) (hv : v ∈ parameters) : isSymbol v = true := by
                simpa using List.find?_eq_none.mp hfind v hv
              apply Agree.bind hP (Agree.freshIdentity hP)
              intro n fresh hgrows hfresh
              rw [← Value.rename_closure]
              exact .pure hP (hP.closure (hP.code_mono hgrows hcode) hhead hsymbols
                (hP.frame_mono hgrows hplace) hfresh)
      | _ => exact .refuse hP hfits (fun _ => rfl) fun _ => hP.ordinary trivial
  | [] | [_] | _ :: _ :: _ :: _ => exact agree_operandCount hP hcode hhead (by simp [Takes])

/-- The expressions of a sequence are evaluated one after the other. -/
theorem agree_inSequence_cons (hP : P.Lawful)
    (heval : ∀ n v, P.grows m n → P.code n v →
      P.Agree P.value (Value.rename P.names) (evaluate v) (evaluate' (v.rename P.names)) n)
    (expression : Value) (later : List Value) (hcode : ∀ v ∈ expression :: later, P.code m v) :
    P.Agree P.value (Value.rename P.names) (inSequence evaluate (expression :: later))
      (inSequence evaluate' ((expression :: later).map (Value.rename P.names))) m := by
  induction later generalizing m expression with
  | nil => exact heval m expression (hP.grows_refl m) (hcode _ (List.mem_cons_self ..))
  | cons next later ih =>
      have hfirst := heval m expression (hP.grows_refl m) (hcode _ (List.mem_cons_self ..))
      rw [List.map_cons, List.map_cons, inSequence, inSequence]
      apply Agree.bind hP (Agree.discard hP hfirst)
      intro n _ hgrows _
      refine ih (fun o v hlater => heval o v (hP.grows_trans hgrows hlater)) next ?_
      intro v hv
      exact hP.code_mono hgrows (hcode v (List.mem_cons_of_mem _ hv))

theorem agree_inSequence (hP : P.Lawful)
    (heval : ∀ n v, P.grows m n → P.code n v →
      P.Agree P.value (Value.rename P.names) (evaluate v) (evaluate' (v.rename P.names)) n)
    (hcode : P.code m (.list identity (head :: operands)))
    (hhead : ofHead? head = some .sequence) :
    P.Agree P.value (Value.rename P.names) (inSequence evaluate operands)
      (inSequence evaluate' (operands.map (Value.rename P.names))) m := by
  have hoperands := hP.operands hcode (by simp [hhead])
  cases operands with
  | nil => exact agree_operandCount hP hcode hhead (by simp [Takes])
  | cons expression later => exact agree_inSequence_cons hP heval expression later hoperands

/-- The runs of a special form agree if the ways of evaluating that they are given do. -/
theorem agree_runForm (hP : P.Lawful) (hfits : P.Fits room more)
    (heval : ∀ n v, P.grows m n → P.code n v →
      P.Agree P.value (Value.rename P.names) (evaluate v) (evaluate' (v.rename P.names)) n)
    (hplace : P.frame m place) {form : SpecialForm}
    (hcode : P.code m (.list identity (head :: operands))) (hhead : ofHead? head = some form) :
    P.Agree P.value (Value.rename P.names) (form.run room evaluate operands place)
      (form.run more evaluate' (operands.map (Value.rename P.names)) (P.names.place place))
      m := by
  cases form with
  | quotation => exact agree_quote hP hcode hhead
  | conditional => exact agree_branch hP hfits heval hcode hhead
  | definition => exact agree_bindHere hP hfits heval hplace hcode hhead
  | assignment => exact agree_rebind hP hfits heval hplace hcode hhead
  | abstraction => exact agree_close hP hfits hplace hcode hhead
  | sequence => exact agree_inSequence hP heval hcode hhead

end SpecialForms

/-! ## The evaluator -/

/-- With this much room in the first run, the evaluator agrees with itself.  Where a
procedure is called from makes no difference. -/
structure AgreesWithin (P : Pairing) (room : Nat) : Prop where
  evaluate : ∀ {more m v place}, P.Fits room more → P.frame m place → P.code m v →
    P.Agree P.value (Value.rename P.names) (evaluate room v place)
      (evaluate more (v.rename P.names) (P.names.place place)) m
  evaluateEach : ∀ {more m vs place}, P.Fits room more → P.frame m place →
    (∀ v ∈ vs, P.code m v) →
    P.Agree P.values (List.map (Value.rename P.names)) (evaluateEach room vs place)
      (evaluateEach more (vs.map (Value.rename P.names)) (P.names.place place)) m
  evaluateForm : ∀ {more m identity head operands form place}, P.Fits room more →
    P.frame m place → P.code m (.list identity (head :: operands)) →
    SpecialForm.ofHead? head = some form →
    P.Agree P.value (Value.rename P.names) (evaluateForm room form operands place)
      (evaluateForm more form (operands.map (Value.rename P.names)) (P.names.place place)) m
  apply : ∀ {more m f vs place other}, P.Fits room more → P.value m f → P.values m vs →
    P.Agree P.value (Value.rename P.names) (apply room f vs place)
      (apply more (f.rename P.names) (vs.map (Value.rename P.names)) other) m
  runPrimitive : ∀ {more m operation vs place other}, P.Fits room more → P.values m vs →
    P.Agree P.value (Value.rename P.names) (runPrimitive room operation vs place)
      (runPrimitive more operation (vs.map (Value.rename P.names)) other) m
  applyEach : ∀ {more m f vs place other}, P.Fits room more → P.value m f → P.values m vs →
    P.Agree P.values (List.map (Value.rename P.names)) (applyEach room f vs place)
      (applyEach more (f.rename P.names) (vs.map (Value.rename P.names)) other) m

theorem agreesWithin_zero (hP : P.Lawful) : P.AgreesWithin 0 where
  evaluate hfits _ _ := .noRoom hP hfits fun h => by subst h; rfl
  evaluateEach hfits _ _ := .noRoom hP hfits fun h => by subst h; rfl
  evaluateForm hfits _ _ _ := .noRoom hP hfits fun h => by subst h; rfl
  apply hfits _ _ := .noRoom hP hfits fun h => by subst h; rfl
  runPrimitive hfits _ := .noRoom hP hfits fun h => by subst h; rfl
  applyEach hfits _ _ := .noRoom hP hfits fun h => by subst h; rfl

section Step

variable {v f : Value} {vs : List Value} {place other : FrameId}

theorem agree_application (hP : P.Lawful) (ih : P.AgreesWithin room) (hfits : P.Fits room more)
    {identity : Identity} {head : Value} {operands : List Value} (hplace : P.frame m place)
    (hcode : P.code m (.list identity (head :: operands)))
    (hhead : SpecialForm.ofHead? head = none) :
    P.Agree P.value (Value.rename P.names)
      (do
        let procedure ← evaluate room head place
        let arguments ← evaluateEach room operands place
        apply room procedure arguments place)
      (do
        let procedure ← evaluate more (head.rename P.names) (P.names.place place)
        let arguments ← evaluateEach more (operands.map (Value.rename P.names))
          (P.names.place place)
        apply more procedure arguments (P.names.place place)) m := by
  have hoperands := hP.operands hcode (by simp [hhead])
  apply Agree.bind hP (ih.evaluate hfits hplace (hP.operator hcode hhead))
  intro n procedure hgrows hprocedure
  refine Agree.bind hP (ih.evaluateEach hfits (hP.frame_mono hgrows hplace)
    fun x hx => hP.code_mono hgrows (hoperands x hx)) ?_
  intro o arguments hlater harguments
  exact ih.apply hfits (hP.value_mono hlater hprocedure) harguments

theorem agree_evaluate_succ (hP : P.Lawful) (ih : P.AgreesWithin room) (hfits : P.Fits room more)
    (hplace : P.frame m place) (hcode : P.code m v) :
    P.Agree P.value (Value.rename P.names) (evaluate (room + 1) v place)
      (evaluate (more + 1) (v.rename P.names) (P.names.place place)) m := by
  cases v with
  | symbol name => exact .lookup hP hplace hcode
  | list identity items =>
      cases items with
      | nil => exact .pure hP (hP.literal hcode nofun nofun)
      | cons head operands =>
          rw [Value.rename_list, List.map_cons, evaluate, evaluate, Value.ofHead?_rename]
          cases hhead : SpecialForm.ofHead? head with
          | some form => exact ih.evaluateForm hfits hplace hcode hhead
          | none => exact agree_application hP ih hfits hplace hcode hhead
  | _ => exact .pure hP (hP.literal hcode nofun nofun)

theorem agree_evaluateEach_succ (hP : P.Lawful) (ih : P.AgreesWithin room)
    (hfits : P.Fits room more) (hplace : P.frame m place) (hcode : ∀ v ∈ vs, P.code m v) :
    P.Agree P.values (List.map (Value.rename P.names)) (evaluateEach (room + 1) vs place)
      (evaluateEach (more + 1) (vs.map (Value.rename P.names)) (P.names.place place)) m := by
  rw [evaluateEach.eq_def, evaluateEach.eq_def]
  refine Agree.mapM hP (fun x hx n hgrows => ?_) hP.value_mono
  exact ih.evaluate hfits (hP.frame_mono hgrows hplace) (hP.code_mono hgrows (hcode x hx))

/-- Both runs bind the parameters of a closure in a new frame, each at a place of its own. -/
theorem agree_bindParameters (hP : P.Lawful) (hfits : P.Fits room more) {identity : Identity}
    {parameters : List Value} {body : Value} {scope : FrameId}
    (hf : P.value m (.closure identity parameters body scope)) (hvs : P.values m vs) :
    P.Agree (fun n frame => P.frame n frame ∧ P.code n body) P.names.place
      (Computation.bindParameters room parameters vs (some scope))
      (Computation.bindParameters more (parameters.map (Value.rename P.names))
        (vs.map (Value.rename P.names)) (some (P.names.place scope))) m := by
  have hbindings := Computation.bindingsOf_rename P.names parameters vs []
  rw [Computation.bindParameters, Computation.bindParameters, List.length_map, List.length_map]
  split
  · cases hbound : Computation.bindingsOf parameters vs [] with
    | error other =>
        rw [hbound] at hbindings
        rw [show Computation.bindingsOf _ _ [] = _ from hbindings]
        exact .refuse hP hfits (fun _ => rfl) (hP.parameter hf hbound)
    | ok bindings =>
        rw [hbound] at hbindings
        rw [show Computation.bindingsOf _ _ [] = _ from hbindings]
        obtain ⟨n, hgrows, hfirst, hsecond, hframe, hbody⟩ := hP.call hf hvs hbound
        refine .ok (P.first m).frames.size n ?_ ?_ hgrows ⟨hframe, hbody⟩
        · rw [hfirst]
          rfl
        · rw [hsecond, ← hP.size m]
          rfl
  · have hshown : (Value.list 0 parameters).rename P.names =
        .list 0 (parameters.map (Value.rename P.names)) := by
      rw [Value.rename_list, P.names.identity_zero]
    rw [← hshown]
    exact .refuse hP hfits (fun _ => rfl) fun _ => hP.ordinary trivial

theorem agree_apply_succ (hP : P.Lawful) (ih : P.AgreesWithin room) (hfits : P.Fits room more)
    (hf : P.value m f) (hvs : P.values m vs) :
    P.Agree P.value (Value.rename P.names) (apply (room + 1) f vs place)
      (apply (more + 1) (f.rename P.names) (vs.map (Value.rename P.names)) other) m := by
  cases f with
  | closure identity parameters body scope =>
      rw [Value.rename_closure, apply, apply]
      apply Agree.bind hP (agree_bindParameters hP hfits hf hvs)
      intro n frame _ hframe
      exact ih.evaluate hfits hframe.1 hframe.2
  | primitive _ operation => exact ih.runPrimitive hfits hvs
  | _ => exact .refuse hP hfits (fun _ => rfl) fun _ => hP.ordinary trivial

theorem agree_applyEach_succ (hP : P.Lawful) (ih : P.AgreesWithin room)
    (hfits : P.Fits room more) (hf : P.value m f) (hvs : P.values m vs) :
    P.Agree P.values (List.map (Value.rename P.names)) (applyEach (room + 1) f vs place)
      (applyEach (more + 1) (f.rename P.names) (vs.map (Value.rename P.names)) other) m := by
  rw [applyEach.eq_def, applyEach.eq_def]
  refine Agree.mapM hP (fun x hx n hgrows => ?_) hP.value_mono
  have hx : P.values n [x] := by simpa [values] using hP.value_mono hgrows (hvs x hx)
  exact ih.apply hfits (hP.value_mono hgrows hf) hx

theorem agreesWithin_succ (hP : P.Lawful) (ih : P.AgreesWithin room) :
    P.AgreesWithin (room + 1) where
  evaluate hfits hplace hcode := by
    obtain ⟨less, rfl, hless⟩ := hfits.exists_succ
    exact agree_evaluate_succ hP ih hless hplace hcode
  evaluateEach hfits hplace hcode := by
    obtain ⟨less, rfl, hless⟩ := hfits.exists_succ
    exact agree_evaluateEach_succ hP ih hless hplace hcode
  evaluateForm hfits hplace hcode hhead := by
    obtain ⟨less, rfl, hless⟩ := hfits.exists_succ
    exact agree_runForm hP hless (fun n v hgrows hv =>
      ih.evaluate hless (hP.frame_mono hgrows hplace) hv) hplace hcode hhead
  apply hfits hf hvs := by
    obtain ⟨less, rfl, hless⟩ := hfits.exists_succ
    exact agree_apply_succ hP ih hless hf hvs
  runPrimitive hfits hvs := by
    obtain ⟨less, rfl, hless⟩ := hfits.exists_succ
    exact agree_run hP hless (fun _ _ _ => ih.apply hless) (fun _ _ _ => ih.applyEach hless) _ hvs
  applyEach hfits hf hvs := by
    obtain ⟨less, rfl, hless⟩ := hfits.exists_succ
    exact agree_applyEach_succ hP ih hless hf hvs

end Step

/-- The evaluator agrees with itself under every lawful pairing, with any room. -/
theorem agreesWithin (hP : P.Lawful) (room : Nat) : P.AgreesWithin room := by
  induction room with
  | zero => exact agreesWithin_zero hP
  | succ room ih => exact agreesWithin_succ hP ih

section Same

/-! Where both runs name everything alike, they are runs of one expression. -/

variable {v f : Value} {vs : List Value} {place : FrameId}

theorem agree_evaluate_same (hP : P.Lawful) (hnames : P.names = .same)
    (hfits : P.Fits room more) (hplace : P.frame m place) (hcode : P.code m v) :
    P.Agree P.value id (evaluate room v place) (evaluate more v place) m := by
  have hagree := (agreesWithin hP room).evaluate hfits hplace hcode
  rwa [hnames, Value.rename_same_eq_id, Renaming.place_same, id] at hagree

theorem agree_apply_same (hP : P.Lawful) (hnames : P.names = .same)
    (hfits : P.Fits room more) (hf : P.value m f) (hvs : P.values m vs) :
    P.Agree P.value id (apply room f vs place) (apply more f vs place) m := by
  have hagree : P.Agree P.value (Value.rename P.names) (apply room f vs place)
      (apply more (f.rename P.names) (vs.map (Value.rename P.names)) place) m :=
    (agreesWithin hP room).apply hfits hf hvs
  rwa [hnames, Value.rename_same_eq_id, List.map_id, id] at hagree

end Same

end Pairing

end Lisplet
