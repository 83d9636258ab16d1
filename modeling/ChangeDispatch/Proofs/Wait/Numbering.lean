import ChangeDispatch.Proofs.Wait.Displacement
import Mathlib.Data.List.Perm.Subperm

/-!
# The numbers of registrations

The entries of a table are kept in a map, whose order says nothing and may change whenever the
table is used. The number of an entry says what the order does not: it is the place of the entry
among all registrations, so the entry with the lowest number for a workspace is one and the same
in every order. A table that is used like another one therefore answers like it.
-/
namespace ChangeDispatch.PendingTable

/-! ## Histories -/

/-- What can be done with a table. -/
inductive Operation where
  | insert (requestId : Option RequestId) (workspace : String)
  | remove (key : WaitKey)
  | takeMatch (ack : AckEvent)
  | close
  deriving DecidableEq, Repr

inductive Answer where
  | registered (e : PendingEntry)
  | refused (err : DispatchError)
  | taken (e : Option PendingEntry)
  /-- So many waits failed. -/
  | closed (failed : Nat)
  deriving DecidableEq, Repr

def Answer.registered? : Answer → Option PendingEntry
  | registered e => some e
  | _ => none

/-- Do something with a table; a registration that is refused leaves it as it is. -/
def perform (t : PendingTable) : Operation → Answer × PendingTable
  | .insert requestId workspace =>
    match t.insert requestId workspace with
    | .ok (e, u) => (.registered e, u)
    | .error err => (.refused err, t)
  | .remove key => (.taken (t.remove key).1, (t.remove key).2)
  | .takeMatch ack => (.taken (t.takeMatch ack).1, (t.takeMatch ack).2)
  | .close => (.closed t.close.1.length, t.close.2)

/-- `u` is `t` with its entries in any order. -/
structure Shuffled (t u : PendingTable) : Prop where
  nextSerial : u.nextSerial = t.nextSerial
  closed : u.closed = t.closed
  entries : u.entries.Perm t.entries

/-- What was done with a new table, with the answers. Its entries can be in any order after each
operation. -/
inductive History : List (Operation × Answer) → PendingTable → Prop where
  | start : History [] {}
  | next {done : List (Operation × Answer)} {t u : PendingTable} (op : Operation) :
      History done t → Shuffled (t.perform op).2 u → History (done ++ [(op, (t.perform op).1)]) u

/-- The entries that were registered, in this order. -/
def registrations (done : List (Operation × Answer)) : List PendingEntry :=
  done.filterMap fun d => d.2.registered?

/-- Each registration has its place as its number, and the entries are some of those that were
registered. A key that is not an identifier is that of one registration. -/
structure Numbered (log : List PendingEntry) (t : PendingTable) : Prop where
  count : t.nextSerial = log.length
  serials : log.map PendingEntry.serial = List.range log.length
  own : ∀ e ∈ log, ∀ n, e.key = .own n → n = e.serial
  logged : ∀ e ∈ t.entries, e ∈ log
  keys : (t.entries.map PendingEntry.key).Nodup

variable {t u : PendingTable} {done done' : List (Operation × Answer)} {log : List PendingEntry}
  {e f : PendingEntry} {es fs : List PendingEntry} {key : WaitKey} {ack : AckEvent}

/-! ## Numbers -/

theorem registrations_next (done : List (Operation × Answer)) (op : Operation) (answer : Answer) :
    registrations (done ++ [(op, answer)]) = registrations done ++ answer.registered?.toList := by
  unfold registrations
  rw [List.filterMap_append, List.filterMap_cons]
  cases answer.registered? <;> rfl

namespace Numbered

theorem start : Numbered [] {} :=
  ⟨rfl, rfl, by simp, by simp, List.nodup_nil⟩

/-- A number says which registration it was. -/
theorem getElem?_serial (h : Numbered log t) (mem : e ∈ log) : log[e.serial]? = some e := by
  obtain ⟨i, bound, at_i⟩ := List.getElem_of_mem mem
  have place : (log.map PendingEntry.serial)[i]? = some e.serial := by
    rw [List.getElem?_map, List.getElem?_eq_getElem bound, at_i]
    rfl
  rw [h.serials, List.getElem?_range bound] at place
  rw [← Option.some.inj place, List.getElem?_eq_getElem bound, at_i]

theorem eq_of_serial (h : Numbered log t) (he : e ∈ log) (hf : f ∈ log)
    (same : e.serial = f.serial) : e = f := by
  have at_e := h.getElem?_serial he
  rw [same, h.getElem?_serial hf] at at_e
  exact (Option.some.inj at_e).symm

theorem distinct (h : Numbered log t) : (t.entries.map PendingEntry.serial).Nodup :=
  h.keys.of_map.map_on fun _ he _ hf => h.eq_of_serial (h.logged _ he) (h.logged _ hf)

theorem fresh (h : Numbered log t) (mem : e ∈ log) : e.serial < t.nextSerial := by
  rw [h.count]
  exact (List.getElem?_eq_some_iff.mp (h.getElem?_serial mem)).1

/-- Numbers are in the order of registration. -/
theorem serial_lt_iff (h : Numbered log t) (he : e ∈ log) (hf : f ∈ log) :
    e.serial < f.serial ↔ [e, f].Sublist log := by
  have rises {a b : PendingEntry} (order : [a, b].Sublist log) : a.serial < b.serial := by
    have sorted : (log.map PendingEntry.serial).Pairwise (· < ·) := by
      rw [h.serials]
      exact List.pairwise_lt_range
    exact List.pairwise_iff_forall_sublist.mp (List.pairwise_map.mp sorted) order
  refine ⟨fun lower => ?_, rises⟩
  obtain ⟨before, after, rfl⟩ := List.append_of_mem he
  rcases List.mem_append.mp hf with earlier | later
  · have := rises ((List.singleton_sublist.mpr earlier).append (List.singleton_sublist.mpr
      (List.mem_cons_self : e ∈ e :: after)))
    omega
  · rcases List.mem_cons.mp later with rfl | later
    · exact absurd lower (Nat.lt_irrefl _)
    · exact ((List.singleton_sublist.mpr later).cons_cons e).trans (List.sublist_append_right _ _)

theorem serial_le_iff (h : Numbered log t) (he : e ∈ log) (hf : f ∈ log) :
    e.serial ≤ f.serial ↔ (f ≠ e → [e, f].Sublist log) := by
  rw [← h.serial_lt_iff he hf]
  constructor
  · intro least other
    exact Nat.lt_of_le_of_ne least fun same => other (h.eq_of_serial hf he same.symm)
  · intro earlier
    by_cases same : f = e
    · exact Nat.le_of_eq (congrArg PendingEntry.serial same).symm
    · exact Nat.le_of_lt (earlier same)

/-- To lose entries, or to have them in another order, changes no number. -/
theorem of_subperm (h : Numbered log t) (count : u.nextSerial = t.nextSerial)
    (entries : u.entries.Subperm t.entries) : Numbered log u where
  count := count.trans h.count
  serials := h.serials
  own := h.own
  logged e he := h.logged e (entries.subset he)
  keys := by
    obtain ⟨es, perm, sub⟩ := entries
    exact (perm.map _).nodup_iff.mp (h.keys.sublist (sub.map _))

theorem insert {requestId : Option RequestId} {workspace : String} (h : Numbered log t)
    (inserted : t.insert requestId workspace = .ok (e, u)) : Numbered (log ++ [e]) u := by
  obtain ⟨-, entry, rfl, free⟩ := insert_ok inserted
  have number : e.serial = log.length := by rw [entry, h.count]
  have used : ∀ f ∈ t.entries, ∀ n, f.key = .own n → n < t.nextSerial := fun f mem n own =>
    h.own f (h.logged f mem) n own ▸ h.fresh (h.logged f mem)
  refine ⟨?_, ?_, ?_, ?_, ?_⟩
  · simp [h.count]
  · rw [List.map_append, h.serials, List.length_append, List.length_singleton, List.range_succ,
      ← number]
    rfl
  · intro f mem n own
    rcases List.mem_append.mp mem with mem | mem
    · exact h.own f mem n own
    · obtain rfl := List.mem_singleton.mp mem
      rw [entry] at own ⊢
      cases requestId with
      | none => exact (WaitKey.own.inj own).symm
      | some id => cases own
  · intro f mem
    rcases List.mem_append.mp mem with mem | mem
    · exact List.mem_append_left _ (h.logged f mem)
    · exact List.mem_append_right _ mem
  · rw [List.map_append, List.nodup_append']
    refine ⟨h.keys, List.nodup_singleton _, fun key hold hnew => ?_⟩
    obtain rfl := List.mem_singleton.mp hnew
    rw [entry] at hold
    exact newKey_notMem used free hold

theorem remove (h : Numbered log t) (key : WaitKey) : Numbered log (t.remove key).2 :=
  h.of_subperm rfl List.filter_sublist.subperm

theorem perform (h : Numbered log t) (op : Operation) :
    Numbered (log ++ (t.perform op).1.registered?.toList) (t.perform op).2 := by
  -- only a registration makes the log longer
  have kept : log ++ (none : Option PendingEntry).toList = log := List.append_nil log
  cases op with
  | insert requestId workspace =>
    unfold PendingTable.perform
    dsimp only
    cases inserted : t.insert requestId workspace with
    | ok v => exact h.insert inserted
    | error err => exact kept.symm ▸ h
  | remove key => exact kept.symm ▸ h.remove key
  | takeMatch ack =>
    refine kept.symm ▸ (?_ : Numbered log (t.takeMatch ack).2)
    unfold takeMatch
    cases t.matchKey? ack with
    | some key => exact h.remove key
    | none => exact h
  | close => exact kept.symm ▸ h.of_subperm rfl (List.nil_subperm)

end Numbered

theorem History.numbered (h : History done t) : Numbered (registrations done) t := by
  induction h with
  | start => exact .start
  | next op _ shuffled ih =>
    rw [registrations_next]
    exact (ih.perform op).of_subperm shuffled.nextSerial shuffled.entries.subperm

/-! ## Orders -/

theorem earliest_eq_some_iff (apart : (es.map PendingEntry.serial).Nodup) :
    earliest es = some e ↔ e ∈ es ∧ ∀ f ∈ es, e.serial ≤ f.serial := by
  refine ⟨earliest_eq_some, fun ⟨mem, least⟩ => ?_⟩
  cases found : earliest es with
  | none =>
    rw [earliest_eq_none found] at mem
    cases mem
  | some f =>
    obtain ⟨mem', least'⟩ := earliest_eq_some found
    have same : f.serial = e.serial := Nat.le_antisymm (least' e mem) (least f mem')
    exact congrArg some (List.inj_on_of_nodup_map apart mem' mem same)

theorem nodup_serials_filter (apart : (es.map PendingEntry.serial).Nodup)
    (p : PendingEntry → Bool) : ((es.filter p).map PendingEntry.serial).Nodup :=
  apart.sublist (List.filter_sublist.map _)

theorem earliest_perm (apart : (es.map PendingEntry.serial).Nodup) (perm : fs.Perm es) :
    earliest fs = earliest es := by
  apply Option.ext
  intro e
  rw [earliest_eq_some_iff apart, earliest_eq_some_iff ((perm.map _).nodup_iff.mpr apart)]
  simp only [perm.mem_iff]

namespace Shuffled

theorem refl (t : PendingTable) : Shuffled t t :=
  ⟨rfl, rfl, .refl _⟩

theorem symm (h : Shuffled t u) : Shuffled u t :=
  ⟨h.nextSerial.symm, h.closed.symm, h.entries.symm⟩

theorem trans {v : PendingTable} (h : Shuffled t u) (h' : Shuffled u v) : Shuffled t v :=
  ⟨h'.nextSerial.trans h.nextSerial, h'.closed.trans h.closed, h'.entries.trans h.entries⟩

theorem find?_eq (h : Shuffled t u) (keys : (t.entries.map PendingEntry.key).Nodup)
    (key : WaitKey) : u.find? key = t.find? key := by
  apply Option.ext
  intro e
  rw [find?_eq_some_iff keys, find?_eq_some_iff ((h.entries.map _).nodup_iff.mpr keys),
    h.entries.mem_iff]

theorem matchKey?_eq (h : Shuffled t u) (apart : (t.entries.map PendingEntry.serial).Nodup)
    (ack : AckEvent) : u.matchKey? ack = t.matchKey? ack := by
  unfold matchKey?
  cases ack.event.requestId with
  | some id => rfl
  | none =>
    have same := earliest_perm (nodup_serials_filter apart _)
      (h.entries.filter (·.workspace == ack.workspace))
    exact congrArg (Option.map PendingEntry.key) same

theorem remove (h : Shuffled t u) (keys : (t.entries.map PendingEntry.key).Nodup)
    (key : WaitKey) :
    (u.remove key).1 = (t.remove key).1 ∧ Shuffled (t.remove key).2 (u.remove key).2 :=
  ⟨h.find?_eq keys key, h.nextSerial, h.closed, h.entries.filter _⟩

theorem takeMatch (h : Shuffled t u) (numbered : Numbered log t) (ack : AckEvent) :
    (u.takeMatch ack).1 = (t.takeMatch ack).1 ∧
      Shuffled (t.takeMatch ack).2 (u.takeMatch ack).2 := by
  unfold PendingTable.takeMatch
  rw [h.matchKey?_eq numbered.distinct ack]
  cases t.matchKey? ack with
  | some key => exact h.remove numbered.keys key
  | none => exact ⟨rfl, h⟩

theorem insert (h : Shuffled t u) (keys : (t.entries.map PendingEntry.key).Nodup)
    (requestId : Option RequestId) (workspace : String) :
    (u.perform (.insert requestId workspace)).1 = (t.perform (.insert requestId workspace)).1 ∧
      Shuffled (t.perform (.insert requestId workspace)).2
        (u.perform (.insert requestId workspace)).2 := by
  have added (e : PendingEntry) : Shuffled
      { t with nextSerial := t.nextSerial + 1, entries := t.entries ++ [e] }
      { u with nextSerial := t.nextSerial + 1, entries := u.entries ++ [e] } :=
    ⟨rfl, h.closed, h.entries.append_right [e]⟩
  unfold PendingTable.perform PendingTable.insert
  dsimp only
  rw [h.closed, h.nextSerial, h.find?_eq keys]
  cases closed : t.closed with
  | true => exact ⟨rfl, h⟩
  | false =>
    rw [h.closed, closed] at added
    cases requestId with
    | none => exact ⟨rfl, added _⟩
    | some id =>
      dsimp only [Option.elim]
      cases t.find? (.request id) with
      | none => exact ⟨rfl, added _⟩
      | some f => exact ⟨rfl, h⟩

/-- A table answers alike in every order, and the order is all that differs afterwards. -/
theorem perform (h : Shuffled t u) (numbered : Numbered log t) (op : Operation) :
    (u.perform op).1 = (t.perform op).1 ∧ Shuffled (t.perform op).2 (u.perform op).2 := by
  cases op with
  | insert requestId workspace => exact h.insert numbered.keys requestId workspace
  | remove key =>
    obtain ⟨answer, after⟩ := h.remove numbered.keys key
    exact ⟨congrArg Answer.taken answer, after⟩
  | takeMatch ack =>
    obtain ⟨answer, after⟩ := h.takeMatch numbered ack
    exact ⟨congrArg Answer.taken answer, after⟩
  | close => exact ⟨congrArg Answer.closed h.entries.length_eq, h.nextSerial, rfl, .refl _⟩

end Shuffled

/-- Tables that were used in one way have given the same answers. -/
theorem History.replay (h : History done t) (h' : History done' u)
    (same : done'.map Prod.fst = done.map Prod.fst) : done' = done ∧ Shuffled t u := by
  induction h generalizing done' u with
  | start =>
    cases h' with
    | start => exact ⟨rfl, .refl _⟩
    | next op history shuffled => simp at same
  | @next done s t op history shuffled ih =>
    cases h' with
    | start => simp at same
    | @next done' s' _ op' history' shuffled' =>
      rw [List.map_append, List.map_append] at same
      obtain ⟨sameDone, sameOp⟩ := List.append_inj' same rfl
      obtain rfl : op' = op := by simpa using sameOp
      obtain ⟨rfl, order⟩ := ih history' sameDone
      obtain ⟨answer, after⟩ := order.perform history.numbered op'
      rw [answer]
      exact ⟨rfl, shuffled.symm.trans (after.trans shuffled')⟩

/-! ## What an acknowledgment takes -/

namespace Numbered

/-- Without an identifier the name decides, and the number among those of one name. -/
theorem takeMatch_anonymous_iff (h : Numbered log t) (anonymous : ack.event.requestId = none) :
    (t.takeMatch ack).1 = some e ↔ e ∈ t.entries ∧ e.workspace = ack.workspace ∧
      ∀ f ∈ t.entries, f.workspace = ack.workspace → e.serial ≤ f.serial := by
  have found : (t.takeMatch ack).1 =
      earliest (t.entries.filter (·.workspace == ack.workspace)) := by
    unfold PendingTable.takeMatch matchKey?
    rw [anonymous]
    cases found : earliest (t.entries.filter (·.workspace == ack.workspace)) with
    | none => rfl
    | some e =>
      have mem := (List.mem_filter.mp (earliest_eq_some found).1).1
      exact (find?_eq_some_iff h.keys).mpr ⟨mem, rfl⟩
  rw [found, earliest_eq_some_iff (nodup_serials_filter h.distinct _)]
  simp only [List.mem_filter, beq_iff_eq, and_assoc, and_imp]

theorem takeMatch_taken (h : Numbered log t) (taken : (t.takeMatch ack).1 = some e) :
    (t.takeMatch ack).2 = { t with entries := t.entries.erase e } := by
  unfold PendingTable.takeMatch at taken ⊢
  cases matched : t.matchKey? ack with
  | none =>
    rw [matched] at taken
    cases taken
  | some key =>
    rw [matched] at taken
    exact congrArg Prod.snd (remove_of_find?_eq_some h.keys taken)

end Numbered

theorem takeMatch_missed (missed : (t.takeMatch ack).1 = none) : (t.takeMatch ack).2 = t := by
  unfold takeMatch at missed ⊢
  cases matched : t.matchKey? ack with
  | none => rfl
  | some key =>
    rw [matched] at missed
    exact congrArg Prod.snd (remove_of_find?_eq_none missed)

/-- What a table owes to what was done with it, whatever order its entries are in. -/
structure OrderFree (done : List (Operation × Answer)) (t : PendingTable) : Prop where
  /-- No two entries have one number, -/
  distinct : (t.entries.map PendingEntry.serial).Nodup
  /-- the next registration gets a higher one than they have, -/
  fresh : ∀ e ∈ t.entries, e.serial < t.nextSerial
  /-- and the lower of two numbers is that of the earlier registration. -/
  ordered : ∀ e ∈ t.entries, ∀ f ∈ t.entries,
    e.serial < f.serial ↔ [e, f].Sublist (registrations done)
  /-- An acknowledgment without an identifier takes the entry for its workspace that was registered
  before all others for it, if there is one. -/
  first : ∀ ack : AckEvent, ack.event.requestId = none → ∀ e, (t.takeMatch ack).1 = some e ↔
    e ∈ t.entries ∧ e.workspace = ack.workspace ∧ ∀ f ∈ t.entries, f.workspace = ack.workspace →
      f ≠ e → [e, f].Sublist (registrations done)
  /-- The entry that is taken is all that goes. -/
  taken : ∀ ack e, (t.takeMatch ack).1 = some e →
    (t.takeMatch ack).2 = { t with entries := t.entries.erase e }
  missed : ∀ ack, (t.takeMatch ack).1 = none → (t.takeMatch ack).2 = t
  /-- The same entry is taken in any other order, and the same ones stay. -/
  shuffled : ∀ u, Shuffled t u → ∀ ack, (u.takeMatch ack).1 = (t.takeMatch ack).1 ∧
    Shuffled (t.takeMatch ack).2 (u.takeMatch ack).2
  /-- A table with which the same was done has given the same answers, and has the same entries. -/
  replayed : ∀ done' u, History done' u → done'.map Prod.fst = done.map Prod.fst →
    done' = done ∧ Shuffled t u

theorem History.order_free (h : History done t) : OrderFree done t where
  distinct := h.numbered.distinct
  fresh e mem := h.numbered.fresh (h.numbered.logged e mem)
  ordered e he f hf := h.numbered.serial_lt_iff (h.numbered.logged e he) (h.numbered.logged f hf)
  first ack anonymous e := by
    have numbered := h.numbered
    rw [numbered.takeMatch_anonymous_iff anonymous]
    refine and_congr_right fun mem => and_congr_right fun _ => forall₃_congr fun f hf _ => ?_
    exact numbered.serial_le_iff (numbered.logged e mem) (numbered.logged f hf)
  taken _ _ := h.numbered.takeMatch_taken
  missed _ := takeMatch_missed
  shuffled _ other := other.takeMatch h.numbered
  replayed _ _ := h.replay

def earlierEntry : PendingEntry := ⟨.own 0, "ws-1", 0⟩

def laterEntry : PendingEntry := ⟨.own 1, "ws-1", 1⟩

/-- Two waits for one workspace, registered one after the other. -/
def twoRegistered : List (Operation × Answer) :=
  [(.insert none "ws-1", .registered earlierEntry), (.insert none "ws-1", .registered laterEntry)]

/-- The later entry stands in front, but the earlier one is taken. -/
theorem earlier_taken_from_behind :
    History twoRegistered ⟨2, [laterEntry, earlierEntry], false⟩ ∧
      OrderFree twoRegistered ⟨2, [laterEntry, earlierEntry], false⟩ ∧
      (⟨2, [laterEntry, earlierEntry], false⟩ : PendingTable).takeMatch
        { event := Script.creation none, status := .created } =
          (some earlierEntry, ⟨2, [laterEntry], false⟩) := by
  have history : History twoRegistered ⟨2, [laterEntry, earlierEntry], false⟩ :=
    .next (.insert none "ws-1") (.next (.insert none "ws-1") .start (.refl _))
      ⟨rfl, rfl, .swap earlierEntry laterEntry []⟩
  exact ⟨history, history.order_free, by decide⟩

end ChangeDispatch.PendingTable

namespace ChangeDispatch

/-! ## The tables of correlators -/

namespace WaitRegistry

open PendingTable (History)

variable {arriving : AckEvent → Prop} {r s : WaitRegistry}
  {done : List (PendingTable.Operation × PendingTable.Answer)}

theorem history_register {event : ChangeEvent} {now : Nat} {timeout : Duration} {w : Waiter}
    (h : History done r.table) (registered : r.register event now timeout = .ok (w, s)) :
    ∃ more, History (done ++ more) s.table := by
  have table : (r.table.perform (.insert event.requestId event.name)).2 = s.table := by
    unfold register at registered
    unfold PendingTable.perform
    cases inserted : r.table.insert event.requestId event.name with
    | error err => rw [inserted] at registered; cases registered
    | ok v =>
      rw [inserted] at registered
      obtain ⟨-, rfl⟩ := Prod.mk.inj (Except.ok.inj registered)
      simp [inserted]
  rw [← table]
  exact ⟨_, h.next _ (.refl _)⟩

/-- To let go of a waiter removes its key, if it was there. -/
theorem history_release (h : History done r.table) (serial : Nat) :
    ∃ more, History (done ++ more) (r.release serial).table := by
  rw [table_release]
  cases r.waiter? serial with
  | none => exact ⟨[], (List.append_nil done).symm ▸ h⟩
  | some w => exact ⟨_, h.next (.remove w.key) (.refl _)⟩

/-- Whatever a registry does, its table is used as a table can be. -/
theorem Step.history (step : Step arriving r s) (h : History done r.table) :
    ∃ more, History (done ++ more) s.table := by
  cases step with
  | kept => exact ⟨[], (List.append_nil done).symm ▸ h⟩
  | registered registered => exact history_register h registered
  | released serial => exact history_release h serial
  | replaced registered _ =>
    obtain ⟨more, after⟩ := history_register h registered
    obtain ⟨rest, later⟩ := history_release after _
    exact ⟨more ++ rest, List.append_assoc .. ▸ later⟩
  | offered _ =>
    rw [table_offer]
    exact ⟨_, h.next (.takeMatch _) (.refl _)⟩
  | closed =>
    rw [table_close]
    exact ⟨_, h.next .close (.refl _)⟩

end WaitRegistry

namespace Script

/-- The tables of correlators are such tables. -/
theorem Runs.table_history {ts : List Transition} {x : Session} {c : Nat} {r : WaitRegistry}
    (run : Runs ts x) (hr : x.registry? c = some r) : ∃ done, PendingTable.History done r.table := by
  induction run generalizing r with
  | start => cases hr
  | @next ts x y a run h ih =>
    have change := Session.waitChange_of_after? h
    cases held : x.registry? c with
    | none =>
      -- a registry that is new has an empty table
      rcases change.empty_of_new hr with bound | rfl
      · have := List.getElem?_eq_none_iff.mp held
        omega
      · exact ⟨[], .start⟩
    | some q =>
      obtain ⟨s, found, step⟩ := change.step run.owned held
      obtain rfl := Option.some.inj (found.symm.trans hr)
      obtain ⟨done, history⟩ := ih held
      obtain ⟨more, later⟩ := step.history history
      exact ⟨_, later⟩

end Script

end ChangeDispatch
