import Lisplet.Document.Workspace
import Mathlib.Data.List.Basic

/-!
# What is published belongs to the index

The server keeps two things that have to stay in step: the index of a document, and the
problems that the editor last saw of it.  They are both of the last text that could be
indexed, or there are none since the document was closed.  A message about one document
leaves the others alone, and a text that cannot be indexed leaves everything as it was.

A history lists the messages so far with the latest one first.
-/

namespace Lisplet.Document

/-! ## Tables -/

section Tables

variable {α : Type} (table : List (String × α)) (key other : String)

theorem lookup_cons_eq (value : α) :
    ((key, value) :: table).lookup other =
      if other = key then some value else table.lookup other := by
  rw [List.lookup_cons]
  by_cases hother : other = key
  · rw [if_pos hother, beq_iff_eq.mpr hother]
  · rw [if_neg hother, beq_eq_false_iff_ne.mpr hother]

@[simp]
theorem lookup_withoutEntry :
    (withoutEntry table key).lookup other =
      if other = key then none else table.lookup other := by
  induction table with
  | nil => exact (ite_self none).symm
  | cons entry table ih =>
      obtain ⟨name, value⟩ := entry
      rw [withoutEntry] at ih ⊢
      rw [List.filter_cons, lookup_cons_eq]
      by_cases hname : name = key
      · rw [if_neg (by simp [hname]), ih, hname]
        split <;> rfl
      · rw [if_pos (by simp [hname]), lookup_cons_eq, ih]
        by_cases hother : other = name
        · rw [if_pos hother, if_neg (hother ▸ hname), if_pos hother]
        · rw [if_neg hother, if_neg hother]

@[simp]
theorem lookup_withEntry (value : α) :
    (withEntry table key value).lookup other =
      if other = key then some value else table.lookup other := by
  rw [withEntry, lookup_cons_eq, lookup_withoutEntry]
  split <;> rfl

end Tables

/-! ## The texts of a history -/

namespace Message

variable {message : Message} {subject : String} {text : Option String}

def newsOf? (address : String) (message : Message) : Option (Option String) :=
  message.news?.bind fun (subject, text) => if subject = address then some text else none

theorem newsOf?_of_request (address : String) (hnews : message.news? = none) :
    message.newsOf? address = none := by
  rw [newsOf?, hnews, Option.bind_none]

theorem newsOf?_of_news (address : String) (hnews : message.news? = some (subject, text)) :
    message.newsOf? address = if subject = address then some text else none := by
  rw [newsOf?, hnews, Option.bind_some]

/-- The index that a document gets by a message, or that it is left without one; nothing
if the message is not about the document or its text cannot be indexed. -/
def outcome? (limit : Nat) (address : String) (message : Message) : Option (Option Index) :=
  (message.newsOf? address).bind fun
    | none => some none
    | some text => (Index.ofDocument limit text.toList).toOption.map some

theorem outcome?_of_request (limit : Nat) (address : String) (hnews : message.news? = none) :
    message.outcome? limit address = none := by
  rw [outcome?, newsOf?_of_request address hnews, Option.bind_none]

theorem outcome?_of_closed (limit : Nat) (address : String)
    (hnews : message.news? = some (subject, none)) :
    message.outcome? limit address = if subject = address then some none else none := by
  rw [outcome?, newsOf?_of_news address hnews]
  split <;> rfl

theorem outcome?_of_delivered (limit : Nat) (address : String) {text : String}
    (hnews : message.news? = some (subject, some text)) :
    message.outcome? limit address =
      if subject = address then (Index.ofDocument limit text.toList).toOption.map some
      else none := by
  rw [outcome?, newsOf?_of_news address hnews]
  split <;> rfl

end Message

/-- The text that was last delivered for a document that was not closed since. -/
def deliveredText? (address : String) (history : List Message) : Option String :=
  (history.findSome? (·.newsOf? address)).join

theorem deliveredText?_cons (address : String) (message : Message) (earlier : List Message) :
    deliveredText? address (message :: earlier) =
      match message.newsOf? address with
      | none => deliveredText? address earlier
      | some text => text := by
  rw [deliveredText?, List.findSome?_cons]
  cases message.newsOf? address <;> rfl

/-- A document that is not open is left without an index, and one whose text can be indexed
has this index. -/
theorem outcome_of_deliveredText? (limit : Nat) (address : String) (history : List Message) :
    (deliveredText? address history = none →
        (history.findSome? (·.outcome? limit address)).join = none) ∧
      ∀ text index, deliveredText? address history = some text →
        Index.ofDocument limit text.toList = .ok index →
          (history.findSome? (·.outcome? limit address)).join = some index := by
  induction history with
  | nil => exact ⟨fun _ => rfl, nofun⟩
  | cons message earlier ih =>
      rw [deliveredText?_cons, List.findSome?_cons, Message.outcome?]
      cases message.newsOf? address with
      | none => exact ih
      | some text =>
          cases text with
          | none => exact ⟨fun _ => rfl, nofun⟩
          | some text =>
              refine ⟨nofun, fun _ index htext hindex => ?_⟩
              cases htext
              dsimp only [Option.bind_some]
              rw [hindex]
              rfl

/-- A host that returns, for a document that is open, the text last delivered for it.
For other documents it may return anything. -/
def ReturnsDelivered (source : List Message → String → String) : Prop :=
  ∀ history address text, deliveredText? address history = some text →
    source history address = text

theorem ReturnsDelivered.of_news {source : List Message → String → String}
    (hsource : ReturnsDelivered source) {message : Message} {address text : String}
    (hnews : message.news? = some (address, some text)) (earlier : List Message) :
    source (message :: earlier) address = text := by
  apply hsource
  rw [deliveredText?_cons, Message.newsOf?_of_news address hnews, if_pos rfl]

namespace Workspace

def after : List Message → Workspace
  | [] => empty
  | message :: earlier => (after earlier).take message

theorem lookup_after (address : String) (history : List Message) :
    (after history).texts.lookup address = deliveredText? address history := by
  induction history with
  | nil => rfl
  | cons message earlier ih =>
      rw [after, take, deliveredText?_cons, ← ih]
      cases hnews : message.news? with
      | none => rw [Message.newsOf?_of_request address hnews]
      | some news =>
          obtain ⟨subject, text⟩ := news
          rw [Message.newsOf?_of_news address hnews]
          cases text with
          | none =>
              rw [lookup_withoutEntry]
              by_cases hsubject : address = subject <;> simp [hsubject, eq_comm]
          | some text =>
              rw [lookup_withEntry]
              by_cases hsubject : address = subject <;> simp [hsubject, eq_comm]

/-- The workspace is such a host. -/
theorem returnsDelivered : ReturnsDelivered fun history => (after history).source := by
  intro history address text htext
  change ((after history).texts.lookup address).getD "" = text
  rw [lookup_after, htext, Option.getD_some]

end Workspace

/-! ## One message -/

namespace Server

/-- From one server to another, a document gets this index or loses the one it had, the
problems of the index are published once, and nothing changes for other documents. -/
structure Settles (before after : Server) (address : String) (entry : Option Index) :
    Prop where
  index : after.index? address = entry
  publications : after.publicationsOf address =
    entry.elim [] Index.diagnostics :: before.publicationsOf address
  others : ∀ other, other ≠ address →
    after.index? other = before.index? other ∧
      after.publicationsOf other = before.publicationsOf other

variable {limit : Nat} {source : String → String} {message : Message} {address text : String}

@[simp]
theorem publicationsOf_publish (server : Server) (address : String)
    (diagnostics : List Diagnostic) (other : String) :
    (server.publish address diagnostics).publicationsOf other =
      if other = address then diagnostics :: server.publicationsOf other
      else server.publicationsOf other := by
  rw [publish, publicationsOf, publicationsOf, List.filter_cons]
  by_cases hother : other = address
  · simp [hother]
  · simp [hother, Ne.symm hother]

/-- To change the entry of a document in the table of indexes and to publish its problems
settles the document. -/
theorem settles_publish {server : Server} {indexes : List (String × Index)}
    {entry : Option Index}
    (hindexes : ∀ other, indexes.lookup other =
      if other = address then entry else server.indexes.lookup other) :
    server.Settles
      ({ server with indexes }.publish address (entry.elim [] Index.diagnostics)) address
      entry where
  index := (hindexes address).trans (if_pos rfl)
  publications := by
    rw [publicationsOf_publish, if_pos rfl]
    rfl
  others := by
    intro other hother
    rw [publicationsOf_publish, if_neg hother]
    exact ⟨(hindexes other).trans (if_neg hother), rfl⟩

theorem settles_forget (server : Server) (address : String) :
    server.Settles (server.forget address) address none :=
  settles_publish (lookup_withoutEntry server.indexes address)

theorem settles_reindex (server : Server) {index : Index}
    (hindex : Index.ofDocument limit text.toList = .ok index) :
    (server.reindex limit address text).1 = .ok .nothing ∧
      server.Settles (server.reindex limit address text).2 address (some index) := by
  rw [reindex, hindex]
  exact ⟨rfl, settles_publish fun other => lookup_withEntry server.indexes address other index⟩

theorem reindex_of_error (server : Server) {failure : Failure}
    (hindex : Index.ofDocument limit text.toList = .error failure) :
    server.reindex limit address text = (.error (.unindexed failure), server) := by
  rw [reindex, hindex]

/-- A request changes nothing, whether it is answered or fails. -/
theorem attend_of_request (server : Server) (hnews : message.news? = none) :
    (server.attend limit source message).2 = server := by
  cases message with
  | opened | changed | closed => cases hnews
  | complete | outline => rfl
  | hover address line character =>
      rw [attend]
      cases server.hover address (source address) line character <;> rfl

theorem attend_of_closed (server : Server) (hnews : message.news? = some (address, none)) :
    server.attend limit source message = (.ok .nothing, server.forget address) := by
  cases message <;> cases hnews
  rfl

theorem attend_of_delivered (server : Server)
    (hnews : message.news? = some (address, some text)) :
    server.attend limit source message =
      server.reindex limit address (source address) := by
  cases message <;> cases hnews <;> rfl

/-- How a message has to be attended to.  A request changes nothing; a document that is
closed is settled without an index, and a text that can be indexed with its index; a text
that cannot be indexed is refused, and changes nothing. -/
def Attends (limit : Nat) (before : Server) (message : Message)
    (done : Except ServerFault Reply × Server) : Prop :=
  match message.news? with
  | none => done.2 = before
  | some (address, none) => done.1 = .ok .nothing ∧ before.Settles done.2 address none
  | some (address, some text) =>
    match Index.ofDocument limit text.toList with
    | .ok index => done.1 = .ok .nothing ∧ before.Settles done.2 address (some index)
    | .error failure => done = (.error (.unindexed failure), before)

theorem attends_attend (server : Server)
    (hsource : ∀ address text, message.news? = some (address, some text) →
      source address = text) :
    server.Attends limit message (server.attend limit source message) := by
  rw [Attends]
  cases hnews : message.news? with
  | none => exact attend_of_request server hnews
  | some news =>
      obtain ⟨address, text⟩ := news
      cases text with
      | none =>
          rw [attend_of_closed server hnews]
          exact ⟨rfl, settles_forget server address⟩
      | some text =>
          rw [attend_of_delivered server hnews, hsource address text hnews]
          dsimp only
          cases hindex : Index.ofDocument limit text.toList with
          | ok index => exact settles_reindex server hindex
          | error failure => exact reindex_of_error server hindex

/-- What a message can do: settle one document, or leave everything as it was. -/
theorem Attends.cases {before : Server} {done : Except ServerFault Reply × Server}
    (hattends : before.Attends limit message done) :
    (∃ subject entry, before.Settles done.2 subject entry ∧
      ∀ address, message.outcome? limit address =
        if subject = address then some entry else none) ∨
    (done.2 = before ∧ ∀ address, message.outcome? limit address = none) := by
  rw [Attends] at hattends
  cases hnews : message.news? with
  | none =>
      rw [hnews] at hattends
      exact .inr ⟨hattends, fun address => message.outcome?_of_request limit address hnews⟩
  | some news =>
      obtain ⟨subject, text⟩ := news
      rw [hnews] at hattends
      cases text with
      | none =>
          exact .inl ⟨subject, none, hattends.2, fun address =>
            message.outcome?_of_closed limit address hnews⟩
      | some text =>
          have houtcome (address) := message.outcome?_of_delivered limit address hnews
          dsimp only at hattends
          cases hindex : Index.ofDocument limit text.toList with
          | ok index =>
              rw [hindex] at hattends houtcome
              exact .inl ⟨subject, some index, hattends.2, houtcome⟩
          | error failure =>
              rw [hindex] at hattends houtcome
              exact .inr ⟨congrArg Prod.snd hattends, fun address =>
                (houtcome address).trans (ite_self none)⟩

/-! ## Whole histories -/

def after (limit : Nat) (source : List Message → String → String) : List Message → Server
  | [] => initial
  | message :: earlier =>
    ((after limit source earlier).attend limit (source (message :: earlier)) message).2

section Histories

variable {source : List Message → String → String} (hsource : ReturnsDelivered source)
include hsource

theorem attends_after (limit : Nat) (message : Message) (earlier : List Message) :
    (after limit source earlier).Attends limit message
      ((after limit source earlier).attend limit (source (message :: earlier)) message) :=
  attends_attend _ fun _ _ hnews => hsource.of_news hnews earlier

/-- The index of a document and what was last published for it are both of the last
message with an outcome for the document. -/
theorem index?_after (limit : Nat) (address : String) (history : List Message) :
    let outcome := history.findSome? (·.outcome? limit address)
    (after limit source history).index? address = outcome.join ∧
      (after limit source history).lastPublished? address =
        outcome.map (·.elim [] Index.diagnostics) := by
  induction history with
  | nil => exact ⟨rfl, rfl⟩
  | cons message earlier ih =>
      have hattends := attends_after hsource limit message earlier
      dsimp only
      rw [List.findSome?_cons, after, lastPublished?]
      obtain ⟨subject, entry, hsettles, houtcome⟩ | ⟨hsame, houtcome⟩ := hattends.cases
      · rw [houtcome]
        by_cases hsubject : subject = address
        · subst hsubject
          rw [if_pos rfl, hsettles.index, hsettles.publications]
          exact ⟨rfl, rfl⟩
        · obtain ⟨hindex, hpublications⟩ := hsettles.others address (Ne.symm hsubject)
          rw [if_neg hsubject, hindex, hpublications]
          exact ih
      · rw [houtcome, hsame]
        exact ih

/-- After any messages, the next one is attended to as it should be.  Then the index of every
document and what was last published for it belong together, a document that is not open
has no index, and a document has the index of its text if that can be indexed. -/
theorem index_belongs_to_publication (limit : Nat) (message : Message)
    (earlier : List Message) :
    let before := after limit source earlier
    let next := after limit source (message :: earlier)
    before.Attends limit message
        (before.attend limit (source (message :: earlier)) message) ∧
      ∀ address,
        let outcome := (message :: earlier).findSome? (·.outcome? limit address)
        let text := deliveredText? address (message :: earlier)
        next.index? address = outcome.join ∧
          next.lastPublished? address = outcome.map (·.elim [] Index.diagnostics) ∧
          (text = none → next.index? address = none) ∧
          ∀ current index, text = some current →
            Index.ofDocument limit current.toList = .ok index →
              next.index? address = some index := by
  refine ⟨attends_after hsource limit message earlier, fun address => ?_⟩
  obtain ⟨hindex, hpublished⟩ := index?_after hsource limit address (message :: earlier)
  have houtcome := outcome_of_deliveredText? limit address (message :: earlier)
  rw [← hindex] at houtcome
  exact ⟨hindex, hpublished, houtcome⟩

end Histories

/-- A document with a problem is looked at and then changed to a text that is nested too
deeply: the problem and the index of the first text stay. -/
theorem index_belongs_to_publication_deep :
    let source := fun history => (Workspace.after history).source
    let earlier := [Message.hover "a" 0 1, .opened "a" "(if 1)"]
    let message := Message.changed "a" "((x))"
    let next := (after 2 source earlier).attend 2 (source (message :: earlier)) message
    ReturnsDelivered source ∧ next.1 = .error (.unindexed .depthExceeded) ∧
      next.2 = after 2 source earlier ∧
      ∃ index, next.2.index? "a" = some index ∧
        next.2.lastPublished? "a" = some index.diagnostics ∧
        index.diagnostics = [⟨"if expects 3 operand(s), got 1", ⟨0, 1, 3⟩⟩] := by
  intro source earlier message next
  have hsource : ReturnsDelivered source := Workspace.returnsDelivered
  have hdeep : Index.ofDocument 2 "((x))".toList = .error .depthExceeded := by
    rw [Index.ofDocument]
    exact if_neg (by decide +kernel)
  have houtcome : ((message :: earlier).findSome? (·.outcome? 2 "a")).map
      (·.map Index.diagnostics) =
        some (some [⟨"if expects 3 operand(s), got 1", ⟨0, 1, 3⟩⟩]) := by decide +kernel
  obtain ⟨hattends, hbelongs⟩ := index_belongs_to_publication hsource 2 message earlier
  obtain ⟨hindex, hpublished, -⟩ := hbelongs "a"
  obtain ⟨entry, hentry, hdiagnostics⟩ := Option.map_eq_some_iff.mp houtcome
  obtain ⟨index, rfl, hshown⟩ := Option.map_eq_some_iff.mp hdiagnostics
  rw [hentry] at hindex hpublished
  have hrefused : next = (.error (.unindexed .depthExceeded), after 2 source earlier) := by
    simpa only [Attends, message, Message.news?, hdeep] using hattends
  exact ⟨hsource, congrArg Prod.fst hrefused, by rw [hrefused], index, hindex, hpublished,
    hshown⟩

end Server

end Lisplet.Document
