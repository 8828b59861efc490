import Lisplet.Proofs.Evaluation.Interleaving
import Lisplet.Proofs.Evaluation.Renumbering

/-!
# The supply of places and identities is not seen

Interpreters that share a store take places and identities from one supply.  What the
others take makes no difference to an interpreter but in the names that it gets, and these
are not shown: it shows what it would show if the others took no turns.
-/

namespace Lisplet

/-! ## New interpreters -/

namespace Store

variable {s : Store}

/-- New primitives take their identities from the supply. -/
theorem exists_newPrimitives (operations : List Primitive) (s : Store) :
    ∃ pairs : List (Value × Value),
      (operations.mapM fun operation => do
          return (Value.symbol operation.name,
            Value.primitive (← Computation.freshIdentity) operation) :
        Computation (List (Value × Value))) s =
        .ok pairs (Discipline.renumbered s (s.nextIdentity + operations.length)) ∧
      ∀ pair ∈ pairs, pair.2.Numbered (s.nextIdentity + operations.length) := by
  induction operations generalizing s with
  | nil => exact ⟨[], rfl, by simp⟩
  | cons operation operations ih =>
      let first := (Value.symbol operation.name, Value.primitive s.nextIdentity operation)
      have hfirst : (do
          return (Value.symbol operation.name,
            Value.primitive (← Computation.freshIdentity) operation) :
          Computation (Value × Value)) s =
          .ok first (Discipline.renumbered s (s.nextIdentity + 1)) := rfl
      obtain ⟨pairs, hrun, hpairs⟩ := ih (Discipline.renumbered s (s.nextIdentity + 1))
      have hnext : (Discipline.renumbered s (s.nextIdentity + 1)).nextIdentity +
          operations.length = s.nextIdentity + (operations.length + 1) := Nat.add_right_comm ..
      rw [hnext] at hrun hpairs
      rw [List.mapM_cons, List.length_cons, Computation.bind_of_ok hfirst]
      refine ⟨first :: pairs, Computation.bind_of_ok hrun, List.forall_mem_cons.mpr ⟨?_, hpairs⟩⟩
      exact .primitive operation (Nat.lt_add_of_pos_right (Nat.succ_pos _))

theorem Numbered.defineEach (hs : s.Numbered) (room : Nat) (place : FrameId)
    {pairs : List (Value × Value)} (hpairs : ∀ pair ∈ pairs, pair.2.Numbered s.nextIdentity) :
    ((pairs.forM fun pair => Computation.define room place pair.1 pair.2).after s).Numbered := by
  induction pairs generalizing s with
  | nil => exact hs
  | cons pair pairs ih =>
      obtain ⟨hv, hrest⟩ := List.forall_mem_cons.mp hpairs
      obtain ⟨key, v⟩ := pair
      rw [List.forM_eq_forM, List.forM_cons]
      cases key with
      | symbol name =>
          have hdefine : Computation.define room place (.symbol name) v s =
              .ok () (s.define place name v) := rfl
          rw [Computation.after, Computation.bind_of_ok hdefine]
          exact ih (hs.define place name hv) hrest
      | _ => exact hs

/-- The primitives of a new global frame have their identities from the store. -/
theorem Numbered.newGlobalFrame (hs : s.Numbered) (room : Nat) :
    ((Computation.newGlobalFrame room).after s).Numbered := by
  have hframe : (Discipline.extended s [] none).Numbered :=
    hs.allocate none (by simp [Bindings.get?])
  obtain ⟨pairs, hrun, hpairs⟩ := exists_newPrimitives Primitive.all (Discipline.extended s [] none)
  rw [Computation.after_newGlobalFrame, Computation.registerPrimitives, Computation.after,
    Computation.bind_of_ok hrun]
  exact (hframe.renumbered (Nat.le_add_right _ _)).defineEach room _
    (Computation.forall_mem_foldl_mergePair hpairs (by simp) fun _ _ hpair _ => hpair)

end Store

/-! ## Forms -/

namespace Datum

/-- No number in a datum is marked, which is so for all that is read. -/
inductive Unmarked : Datum → Prop where
  | number (x : Double) : Unmarked (.number (.real x))
  | boolean (b : Bool) : Unmarked (.boolean b)
  | symbol (name : String) : Unmarked (.symbol name)
  | list {items : List Datum} : (∀ item ∈ items, Unmarked item) → Unmarked (.list items)

theorem unmarked_ofToken (token : String) : (ofToken token).Unmarked := by
  rw [ofToken]
  split
  · exact .number _
  · split
    · exact .boolean true
    · split
      · exact .boolean false
      · split
        · exact .list (by simp)
        · exact .symbol token

theorem unmarked_of_readFrom {room : Nat} {opened : OpenLists} {tokens rest : List String}
    {d : Datum} (hopened : ∀ items ∈ opened, ∀ item ∈ items, item.Unmarked)
    (hread : readFrom room opened tokens = (.ok d, rest)) : d.Unmarked := by
  fun_induction readFrom room opened tokens with
  | case1 | case2 | case5 => cases hread
  | case3 room tokens items =>
      cases hread
      exact .list (by simpa using hopened)
  | case4 room tokens items outer opened ih =>
      obtain ⟨hitems, houter, hlater⟩ := by simpa only [List.forall_mem_cons] using hopened
      refine ih ?_ hread
      have hlist : (Datum.list items.reverse).Unmarked := .list (by simpa using hitems)
      simpa only [List.forall_mem_cons] using ⟨⟨hlist, houter⟩, hlater⟩
  | case6 opened tokens room hne ih => exact ih (by simpa using hopened) hread
  | case7 token tokens =>
      injection hread with hdatum
      injection hdatum with hdatum
      exact hdatum ▸ unmarked_ofToken token
  | case8 token tokens hclose room hopen datum items opened ih =>
      obtain ⟨hitems, hlater⟩ := List.forall_mem_cons.mp hopened
      refine ih ?_ hread
      simpa only [List.forall_mem_cons] using ⟨⟨unmarked_ofToken token, hitems⟩, hlater⟩

/-- The forms of a text are unmarked. -/
theorem unmarked_of_mem_forms {limit : Nat} {tokens : List String} {form : Datum}
    (hform : form ∈ (readForms limit tokens).forms) : form.Unmarked := by
  fun_induction readForms limit tokens with
  | case1 | case2 => simp at hform
  | case3 tokens hne first rest hstep hshorter later ih =>
      rcases List.mem_cons.mp hform with rfl | hlater
      · exact unmarked_of_readFrom (by simp) hstep
      · exact ih hlater

variable (r : Renaming)

mutual

/-- A form that is loaded from another supply is the same in other names. -/
theorem load_rename : {next other : Identity} →
    (∀ count, r.identity (next + count) = other + count) → (d : Datum) →
    ((d.rename r).load other).1 = (d.load next).1.rename r ∧
      ∀ count, r.identity ((d.load next).2 + count) = ((d.rename r).load other).2 + count
  | _, _, h, number _ | _, _, h, boolean _ | _, _, h, symbol _ => ⟨rfl, h⟩
  | next, other, h, list items => by
    have hnext (count : Nat) : r.identity (next + 1 + count) = other + 1 + count := by
      rw [Nat.add_assoc, Nat.add_assoc]
      exact h (1 + count)
    obtain ⟨hitems, hlater⟩ := loadAll_rename hnext items
    refine ⟨?_, hlater⟩
    change Value.list other _ = (Value.list next _).rename r
    rw [Value.rename_list, hitems, show r.identity next = other from h 0]

theorem loadAll_rename : {next other : Identity} →
    (∀ count, r.identity (next + count) = other + count) → (items : List Datum) →
    (loadAll (renameAll r items) other).1 = (loadAll items next).1.map (Value.rename r) ∧
      ∀ count, r.identity ((loadAll items next).2 + count) =
        (loadAll (renameAll r items) other).2 + count
  | _, _, h, [] => ⟨rfl, h⟩
  | _, _, h, item :: items => by
    obtain ⟨hitem, hnext⟩ := load_rename h item
    obtain ⟨hitems, hlater⟩ := loadAll_rename hnext items
    refine ⟨?_, hlater⟩
    change _ :: _ = List.map _ (_ :: _)
    rw [List.map_cons, hitem, hitems]

end

theorem Unmarked.rename_eq {d : Datum} (h : d.Unmarked) : d.rename r = d := by
  induction h with
  | list _ ih => rw [rename, renameAll_eq_map, List.map_congr_left ih, List.map_id']
  | _ => rfl

mutual

/-- A value that is loaded has its identities from the supply. -/
theorem numbered_load : (d : Datum) → d.Unmarked → (next : Identity) →
    (d.load next).1.Numbered (d.load next).2
  | number _, .number _, _ => .number nofun
  | boolean b, _, _ => .boolean b
  | symbol name, _, _ => .symbol name
  | list items, .list hitems, next =>
    .list (le_loadAll items (next + 1)) (numbered_loadAll items hitems (next + 1))

theorem numbered_loadAll : (items : List Datum) → (∀ item ∈ items, item.Unmarked) →
    (next : Identity) → ∀ v ∈ (loadAll items next).1, v.Numbered (loadAll items next).2
  | [], _, _ => by simp [loadAll]
  | item :: items, h, next => by
    obtain ⟨hitem, hitems⟩ := List.forall_mem_cons.mp h
    have hfirst := numbered_load item hitem next
    exact List.forall_mem_cons.mpr ⟨hfirst.mono (le_loadAll items _),
      numbered_loadAll items hitems _⟩

end

end Datum

namespace Renaming

/-- One renaming is another one on what a store has handed out. -/
structure Continues (later r : Renaming) (s : Store) : Prop where
  place : ∀ place < s.frames.size, later.place place = r.place place
  identity : ∀ identity < s.nextIdentity, later.identity identity = r.identity identity

theorem Continues.refl (r : Renaming) (s : Store) : r.Continues r s :=
  ⟨fun _ _ => rfl, fun _ _ => rfl⟩

theorem Continues.trans {last later r : Renaming} {s t : Store} (h : later.Continues r s)
    (hlast : last.Continues later t) (hsize : s.frames.size ≤ t.frames.size)
    (hnext : s.nextIdentity ≤ t.nextIdentity) : last.Continues r s where
  place place hplace :=
    (hlast.place place (Nat.lt_of_lt_of_le hplace hsize)).trans (h.place place hplace)
  identity identity hidentity :=
    (hlast.identity identity (Nat.lt_of_lt_of_le hidentity hnext)).trans
      (h.identity identity hidentity)

theorem Continues.rename_eq {later r : Renaming} {s : Store} (h : later.Continues r s)
    {v : Value} (hv : s.Supplied v) : v.rename later = v.rename r := by
  obtain ⟨hplaces, hidentities⟩ := hv
  induction hplaces with
  | number x =>
      cases hidentities with
      | number hmark =>
          cases x with
          | real x => rfl
          | nan mark =>
              exact congrArg (Value.number <| .nan ·) (h.identity mark (hmark mark rfl))
  | boolean b => rfl
  | symbol name => rfl
  | list _ ih =>
      obtain ⟨hidentity, hitems⟩ := Value.numbered_list_iff.mp hidentities
      rw [Value.rename_list, Value.rename_list, h.identity _ hidentity,
        List.map_congr_left fun v hv => ih v hv (hitems v hv)]
  | primitive identity operation =>
      cases hidentities with
      | primitive _ hidentity =>
          exact congrArg (Value.primitive · operation) (h.identity identity hidentity)
  | closure _ _ hscope hparameters hbody =>
      cases hidentities with
      | closure hidentity hall hcode =>
          rw [Value.rename_closure, Value.rename_closure, h.identity _ hidentity,
            h.place _ hscope, hbody hcode,
            List.map_congr_left fun v hv => hparameters v hv (hall v hv)]

theorem strictMono_skip {f : Nat → Nat} (hf : StrictMono f) (bound count : Nat) :
    StrictMono fun n => if n < bound then f n else f n + count := by
  intro m n hlt
  have hmn := hf hlt
  dsimp only
  split <;> split <;> omega

/-- The renaming that skips some places and identities behind those that a store has
handed out. -/
def skip (r : Renaming) {s : Store} (hs : s.Numbered) (places identities : Nat) : Renaming where
  place place := if place < s.frames.size then r.place place else r.place place + places
  identity identity :=
    if identity < s.nextIdentity then r.identity identity else r.identity identity + identities
  place_strictMono := strictMono_skip r.place_strictMono _ _
  identity_strictMono := strictMono_skip r.identity_strictMono _ _
  identity_zero := by rw [if_pos hs.pos, r.identity_zero]

theorem continues_skip (r : Renaming) {s : Store} (hs : s.Numbered) (places identities : Nat) :
    (r.skip hs places identities).Continues r s :=
  ⟨fun _ hplace => if_pos hplace, fun _ hidentity => if_pos hidentity⟩

end Renaming

namespace Store

variable {r : Renaming} {s t : Store}

theorem Renamed.frames_skip (h : Renamed r s t) (hs : s.Numbered) (places identities : Nat)
    (place : FrameId) :
    (t.spend places identities).frames[(r.skip hs places identities).place place]? =
      t.frames[r.place place]? := by
  by_cases hplace : place < s.frames.size
  · rw [(r.continues_skip hs places identities).place place hplace,
      frames_spend _ _ _ (h.lt_size_iff.mpr hplace)]
  · have hle : t.frames.size ≤ r.place place := Nat.le_of_not_lt (mt h.lt_size_iff.mp hplace)
    have hskip : (r.skip hs places identities).place place = r.place place + places :=
      if_neg hplace
    rw [hskip, Array.getElem?_eq_none hle, Array.getElem?_eq_none]
    rw [size_spend]
    exact Nat.add_le_add_right hle _

/-- What was used up is skipped. -/
theorem Renamed.spend (h : Renamed r s t) (hwell : s.WellFormed) (hs : s.Numbered)
    (places identities : Nat) :
    Renamed (r.skip hs places identities) s (t.spend places identities) where
  place count := by
    have hskip : (r.skip hs places identities).place (s.frames.size + count) =
        r.place (s.frames.size + count) + places :=
      if_neg (Nat.not_lt_of_le (Nat.le_add_right ..))
    rw [hskip, h.place, size_spend]
    exact Nat.add_right_comm ..
  identity count := by
    have hskip : (r.skip hs places identities).identity (s.nextIdentity + count) =
        r.identity (s.nextIdentity + count) + identities :=
      if_neg (Nat.not_lt_of_le (Nat.le_add_right ..))
    rw [hskip, h.identity]
    exact Nat.add_right_comm ..
  outer place := by
    have hcontinues := r.continues_skip hs places identities
    rw [h.frames_skip, h.outer]
    cases hframe : s.frames[place]? with
    | none => rfl
    | some frame =>
        rw [Option.map_some, Option.map_some]
        cases houter : frame.outer with
        | none => rfl
        | some outer =>
            have hlt : outer < s.frames.size := Nat.lt_trans (hwell.outer_lt hframe houter)
              (Array.getElem?_eq_some_iff.mp hframe).1
            rw [Option.map_some, Option.map_some, hcontinues.place outer hlt]
  bound place name := by
    have hcontinues := r.continues_skip hs places identities
    rw [bound?, h.frames_skip]
    refine (h.bound place name).trans ?_
    cases hbound : s.bound? place name with
    | none => rfl
    | some v =>
        rw [Option.map_some, Option.map_some, hcontinues.rename_eq (hs.supplied hwell hbound)]

/-- The turn of an interpreter in two stores that are the same in other names. -/
theorem Renamed.turn (h : Renamed r s t) (hwell : s.WellFormed) (hs : s.Numbered) {turn : Turn}
    (hglobals : turn.globals < s.frames.size) (hfixed : r.place turn.globals = turn.globals)
    (hform : turn.form.Unmarked) :
    turn.run.outcome t = r.outcome (Value.rename r) (turn.run.outcome s) ∧
      Renamed r (turn.run.after s) (turn.run.after t) ∧ (turn.run.after s).Numbered ∧
      ∀ answer, turn.run.outcome s = .ok answer → (turn.run.after s).Supplied answer := by
  obtain ⟨hload, hlater⟩ := Datum.load_rename r h.identity turn.form
  rw [hform.rename_eq] at hload hlater
  have hexpression : turn.expression t = (turn.expression s).rename r := hload
  have hloaded : Renamed r (turn.loaded s) (turn.loaded t) :=
    ⟨h.place, hlater, h.outer, h.bound⟩
  have hsupplied : (turn.loaded s).Supplied (turn.expression s) :=
    ⟨(Value.holdsOfData_scoped _).load turn.form s.nextIdentity,
      Datum.numbered_load turn.form hform s.nextIdentity⟩
  have hevaluate := hloaded.evaluate ⟨hwell.outer_lt, hwell.scopes⟩
    (hs.renumbered (turn.form.le_load _)) turn.room hsupplied hglobals
  rw [hfixed, ← hexpression] at hevaluate
  rwa [turn.outcome_run, turn.outcome_run, turn.after_run, turn.after_run]

/-- What an interpreter gives to its user: a value, or the report of a failure. -/
def reported (outcome : Except Failure Value) : Except String Value :=
  outcome.mapError Failure.report

theorem reported_outcome {later : Renaming} {u : Store} (hlater : later.Continues r u)
    {outcome : Except Failure Value}
    (houtcome : ∀ answer, outcome = .ok answer → u.Supplied answer) :
    reported (r.outcome (Value.rename r) outcome) =
      (reported outcome).map (Value.rename later) := by
  cases outcome with
  | ok answer => exact congrArg Except.ok (hlater.rename_eq (houtcome answer rfl)).symm
  | error failure => exact congrArg Except.error (failure.report_rename r)

/-- The answers alone are the answers to the own turns in other names, of which there is
one for all that the store hands out. -/
theorem AnswersAlone.exists_renaming {owner : FrameId} {turns : List Turn}
    {answers : List (Except Failure Value)} (h : AnswersAlone owner turns t answers)
    (hrenamed : Renamed r s t) (hwell : s.WellFormed) (hs : s.Numbered)
    (howner : owner < s.frames.size) (hfixed : r.place owner = owner)
    (hforms : ∀ turn ∈ turns, turn.form.Unmarked) :
    ∃ later : Renaming, later.Continues r s ∧
      answers.map reported =
        (s.answers owner (turns.filter (·.globals = owner))).map fun answer =>
          (reported answer).map (Value.rename later) := by
  induction h generalizing r s with
  | nil => exact ⟨r, .refl r s, rfl⟩
  | @own turn turns t answers hown _ ih =>
      subst hown
      obtain ⟨hform, hforms⟩ := List.forall_mem_cons.mp hforms
      obtain ⟨houtcome, hafter, hnumbered, hsupplied⟩ :=
        hrenamed.turn hwell hs howner hfixed hform
      obtain ⟨hsize, hnext⟩ := le_after_turn (s := s) turn
      obtain ⟨later, hlater, hrest⟩ := ih hafter (hwell.after_turn turn howner) hnumbered
        (Nat.lt_of_lt_of_le howner hsize) hfixed hforms
      refine ⟨later, (Renaming.Continues.refl r s).trans hlater hsize hnext, ?_⟩
      rw [List.filter_cons_of_pos (by simp), Store.answers, if_pos rfl, List.map_cons,
        List.map_cons, hrest, houtcome, reported_outcome hlater hsupplied]
  | @other turn turns t answers places identities hother _ ih =>
      obtain ⟨-, hforms⟩ := List.forall_mem_cons.mp hforms
      have hskip := r.continues_skip hs places identities
      obtain ⟨later, hlater, hrest⟩ := ih (hrenamed.spend hwell hs places identities) hwell hs
        howner ((hskip.place owner howner).trans hfixed) hforms
      refine ⟨later, hskip.trans hlater (Nat.le_refl _) (Nat.le_refl _), ?_⟩
      rw [List.filter_cons_of_neg (by simpa using hother)]
      exact hrest

variable {globals : List FrameId} {turns : List Turn} {owner : FrameId}

/-- An interpreter that shares a store answers as it would if the others took no turns, in
other names. -/
theorem Separates.exists_renaming (hs : s.Separates globals) (hnumbered : s.Numbered)
    (hturns : ∀ turn ∈ turns, turn.globals ∈ globals)
    (hforms : ∀ turn ∈ turns, turn.form.Unmarked) (howner : owner ∈ globals) :
    ∃ r : Renaming,
      (s.answers owner turns).map reported =
        (s.answers owner (turns.filter (·.globals = owner))).map fun answer =>
          (reported answer).map (Value.rename r) := by
  have halone := hs.answersAlone hturns howner ⟨rfl, rfl, fun _ _ => rfl, .outer, .bound⟩
  obtain ⟨r, -, hanswers⟩ := halone.exists_renaming s.renamed_same hs.wellFormed hnumbered
    (hs.lt_size owner howner) rfl hforms
  exact ⟨r, hanswers⟩

def shown (outcome : Except Failure Value) : Except String String :=
  (reported outcome).map fun answer => answer.datum.text

theorem Separates.shown_answers (hs : s.Separates globals) (hnumbered : s.Numbered)
    (hturns : ∀ turn ∈ turns, turn.globals ∈ globals)
    (hforms : ∀ turn ∈ turns, turn.form.Unmarked) (howner : owner ∈ globals) :
    (s.answers owner turns).map shown =
      (s.answers owner (turns.filter (·.globals = owner))).map shown := by
  obtain ⟨r, hanswers⟩ := hs.exists_renaming hnumbered hturns hforms howner
  have htext (outcome : Except String Value) :
      (outcome.map (Value.rename r)).map (fun answer => answer.datum.text) =
        outcome.map fun answer => answer.datum.text := by
    cases outcome with
    | ok answer => exact congrArg Except.ok (by simp)
    | error report => rfl
  have hshown := congrArg (List.map (Except.map fun answer => answer.datum.text)) hanswers
  rw [List.map_map, List.map_map] at hshown
  refine hshown.trans (List.map_congr_left fun outcome _ => ?_)
  exact htext (reported outcome)

end Store

/-! ## The stores that interpreters share -/

/-- The form of a turn is read from a source text. -/
def Turn.IsRead (turn : Turn) : Prop :=
  ∃ limit source, turn.form ∈ (readSource limit source).forms

theorem Turn.IsRead.unmarked {turn : Turn} (h : turn.IsRead) : turn.form.Unmarked := by
  obtain ⟨limit, source, hform⟩ := h
  cases source with
  | none => cases hform
  | some text => exact Datum.unmarked_of_mem_forms hform

namespace Store

/-- The stores that interpreters with these global frames come to, each of which is made in
what the others have left, and takes turns. -/
inductive Shared : Store → List FrameId → Prop where
  | empty : Shared Store.empty []
  | interpreter {s : Store} {globals : List FrameId} (room : Nat) : Shared s globals →
      Shared ((Computation.newGlobalFrame room).after s) (s.frames.size :: globals)
  | turn {s : Store} {globals : List FrameId} {turn : Turn} : Shared s globals →
      turn.globals ∈ globals → turn.IsRead → Shared (turn.run.after s) globals

variable {s : Store} {globals : List FrameId} {turns : List Turn} {owner : FrameId}

theorem Shared.separates_numbered (h : s.Shared globals) : s.Separates globals ∧ s.Numbered := by
  induction h with
  | empty => exact ⟨⟨wellFormed_empty, by simp, by simp⟩, Nat.zero_lt_one, holds_empty _⟩
  | interpreter room _ ih => exact ⟨ih.1.newGlobalFrame room, ih.2.newGlobalFrame room⟩
  | @turn s _ turn _ hturn hread ih =>
      obtain ⟨hs, hnumbered⟩ := ih
      obtain ⟨-, -, hafter, -⟩ := s.renamed_same.turn hs.wellFormed hnumbered
        (hs.lt_size _ hturn) rfl hread.unmarked
      exact ⟨hs.after_turn hturn, hafter⟩

/-- Whatever interpreters did before in the store that they share, each of them shows what
it would show if from now on only its own turns were taken. -/
theorem Shared.shown_answers (h : s.Shared globals)
    (hturns : ∀ turn ∈ turns, turn.globals ∈ globals) (hread : ∀ turn ∈ turns, turn.IsRead)
    (howner : owner ∈ globals) :
    (s.answers owner turns).map shown =
      (s.answers owner (turns.filter (·.globals = owner))).map shown :=
  h.separates_numbered.1.shown_answers h.separates_numbered.2 hturns
    (fun turn hturn => (hread turn hturn).unmarked) howner

end Store

end Lisplet
