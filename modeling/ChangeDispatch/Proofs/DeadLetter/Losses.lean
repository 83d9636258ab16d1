import ChangeDispatch.Proofs.DeadLetter.Changes
import ChangeDispatch.Proofs.DeadLetter.Fates

/-!
# Messages that a consumer loses

Every message that arrives at a running consumer is handled, copied, or still there,
unless it was lost with its last delivery. The loss is the only exception: over a
connection whose settlements do not fail, nothing else removes a message.
-/
namespace ChangeDispatch

open Consumer (Attends Accounted Ends)

/-- What others do keeps a consumer and its subscription together, and takes no message. -/
theorem Consumer.Attends.outside {arriving : Payload → Prop} {now n : Nat} {c : Consumer}
    {s s' : Subscription} (att : Attends c s) (out : Subscription.Outside arriving now n s s') :
    Attends c s' ∧ (s'.copies.Perm s.copies ∨
      ∃ payload, arriving payload ∧ s'.copies.Perm ((n, payload) :: s.copies)) := by
  obtain ⟨config, held, receiving, detached⟩ := out.config
  have perm : s'.copies.Perm s.copies ∨
      ∃ payload, s.attached ∧ arriving payload ∧ s'.copies.Perm ((n, payload) :: s.copies) := by
    by_cases he : c.phase = .ended
    · obtain ⟨ha, hnil⟩ := att.ended he
      left
      rcases out.copies_subperm with sub | ⟨_, ha', -⟩
      · rw [hnil] at sub ⊢
        exact List.subperm_nil.mp sub ▸ List.Perm.refl _
      · cases ha.symm.trans ha'
    · exact out.copies_perm (att.receiving he)
  refine ⟨⟨?_, ?_, held.trans att.held, fun he => receiving.trans (att.receiving he), fun he => ?_⟩,
    perm.imp_right fun ⟨payload, _, h⟩ => ⟨payload, h⟩⟩
  · exact (congrArg SubscriptionConfig.topic config).trans att.topic
  · exact (congrArg SubscriptionConfig.maxDeliveries config).trans att.bound
  · obtain ⟨ha, hnil⟩ := att.ended he
    refine ⟨detached ha, ?_⟩
    rcases perm with perm | ⟨_, ha', -⟩
    · rw [hnil] at perm
      exact perm.eq_nil
    · cases ha.symm.trans ha'

namespace Script

/-- A consumer and its subscription. -/
def Session.inbox? (x : Session) (k : Nat) : Option (Consumer × Subscription) :=
  (x.system.consumers[k]?).bind fun c =>
    (x.system.host.broker.subscriptions[c.subscription]?).map fun s => (c, s)

/-- Settlements have their effect. -/
def Session.Settles (x : Session) : Prop :=
  x.system.host.faults.failAck = false ∧ x.system.host.faults.failNack = false

/-- A message is put on the topic of a consumer that is subscribed to it. -/
def Transition.Arrives (t : Transition) (k m : Nat) : Prop :=
  ∃ c s payload, t.before.inbox? k = some (c, s) ∧ s.attached ∧ t.Puts c.topic m payload

/-- A consumer is done with a message. -/
def Transition.Finishes (t : Transition) (k m : Nat) (fate : Fate) : Prop :=
  t.action = .agent (.consumer k) ∧
  ∃ c c' d, t.before.system.consumers[k]? = some c ∧ t.after.system.consumers[k]? = some c' ∧
    d.message = m ∧ Ends t.before.system.host c t.after.system.host c' d fate

theorem Session.inbox?_eq_some {x : Session} {k : Nat} {c : Consumer} {s : Subscription} :
    x.inbox? k = some (c, s) ↔ x.system.consumers[k]? = some c ∧
      x.system.host.broker.subscriptions[c.subscription]? = some s := by
  unfold inbox?
  rw [Option.bind_eq_some_iff]
  constructor
  · rintro ⟨c', hc, hs⟩
    obtain ⟨s', hs', he⟩ := Option.map_eq_some_iff.mp hs
    obtain ⟨rfl, rfl⟩ := Prod.mk.inj he
    exact ⟨hc, hs'⟩
  · rintro ⟨hc, hs⟩
    exact ⟨c, hc, by rw [hs]; rfl⟩

/-! ## The account of one consumer -/

/-- Where the messages of consumer `k` are when the broker has had `n` messages. -/
structure Account (ts : List Transition) (n k : Nat) (c : Consumer) (s : Subscription) :
    Prop where
  attends : Attends c s
  nodup : s.messages.Nodup
  below : ∀ m ∈ s.messages, m < n
  finished : ∀ u ∈ ts, ∀ m f, u.Finishes k m f → m ∉ s.messages ∧ m < n
  once : ∀ u ∈ ts, ∀ v ∈ ts, ∀ m f g, u.Finishes k m f → v.Finishes k m g → f = g
  complete : ∀ u ∈ ts, ∀ m, u.Arrives k m → m ∈ s.messages ∨ ∃ v ∈ ts, ∃ f, v.Finishes k m f

variable {ts : List Transition} {x y z : Session} {a : Action} {n k : Nat} {c c' : Consumer}
  {s s' : Subscription}

/-- A transition takes from the subscription what the consumer is done with, and adds what
arrives. -/
theorem Account.next (acc : Account ts n k c s) (att : Attends c' s') {t : Transition} {n' : Nat}
    (hn : n ≤ n') (nodup : s'.messages.Nodup)
    (mem : ∀ m ∈ s'.messages, m ∈ s.messages ∨ m = n ∧ n < n')
    (gone : ∀ m ∈ s.messages, m ∈ s'.messages ∨ ∃ f, t.Finishes k m f)
    (finished : ∀ m f, t.Finishes k m f →
      m ∈ s.messages ∧ m ∉ s'.messages ∧ ∀ g, t.Finishes k m g → f = g)
    (arrives : ∀ m, t.Arrives k m → m ∈ s'.messages) : Account (t :: ts) n' k c' s' := by
  refine ⟨att, nodup, fun m hm => ?_, fun u hu m f fu => ?_, fun u hu v hv m f g fu fv => ?_,
    fun u hu m arr => ?_⟩
  · rcases mem m hm with hm | ⟨rfl, hlt⟩
    · exact Nat.lt_of_lt_of_le (acc.below m hm) hn
    · exact hlt
  · rcases List.mem_cons.mp hu with rfl | hu
    · obtain ⟨hm, hm', -⟩ := finished m f fu
      exact ⟨hm', Nat.lt_of_lt_of_le (acc.below m hm) hn⟩
    · obtain ⟨hm, hlt⟩ := acc.finished u hu m f fu
      refine ⟨fun hm' => ?_, Nat.lt_of_lt_of_le hlt hn⟩
      rcases mem m hm' with hm' | ⟨rfl, -⟩
      · exact hm hm'
      · exact Nat.lt_irrefl m hlt
  · -- what was finished before is not there to be finished again
    rcases List.mem_cons.mp hu with hut | hu'
    · subst hut
      obtain ⟨hm, -, same⟩ := finished m f fu
      rcases List.mem_cons.mp hv with hvu | hv'
      · exact same g (hvu ▸ fv)
      · exact absurd hm (acc.finished v hv' m g fv).1
    · rcases List.mem_cons.mp hv with hvt | hv'
      · exact absurd (finished m g (hvt ▸ fv)).1 (acc.finished u hu' m f fu).1
      · exact acc.once u hu' v hv' m f g fu fv
  · rcases List.mem_cons.mp hu with rfl | hu
    · exact .inl (arrives m arr)
    · rcases acc.complete u hu m arr with hm | ⟨v, hv, f, fv⟩
      · refine (gone m hm).imp_right fun ⟨f, ft⟩ => ⟨t, List.mem_cons_self, f, ft⟩
      · exact .inr ⟨v, List.mem_cons_of_mem _ hv, f, fv⟩

/-- A consumer that does not act. -/
theorem Account.outside (acc : Account ts n k c s) {t : Transition} {now n' : Nat} (hn : n ≤ n')
    (out : Subscription.Outside (fun _ => n' = n + 1) now n s s')
    (quiet : t.action ≠ .agent (.consumer k))
    (arrives : ∀ m, t.Arrives k m → s.attached ∧ ∃ d : Delivery, d.message = m ∧ s' = s.arrive d) :
    Account (t :: ts) n' k c s' := by
  obtain ⟨att, perm⟩ := acc.attends.outside out
  have messages : s'.messages.Perm s.messages ∨
      n' = n + 1 ∧ s'.messages.Perm (n :: s.messages) := by
    rcases perm with perm | ⟨payload, hn', perm⟩
    · exact .inl (perm.map Prod.fst)
    · exact .inr ⟨hn', perm.map Prod.fst⟩
  refine acc.next att hn ?_ (fun m hm => ?_) (fun m hm => .inl ?_)
    (fun m f fin => absurd fin.1 quiet) fun m arr => ?_
  · rcases messages with perm | ⟨-, perm⟩
    · exact perm.nodup_iff.mpr acc.nodup
    · exact perm.nodup_iff.mpr (List.nodup_cons.mpr
        ⟨fun hm => Nat.lt_irrefl n (acc.below n hm), acc.nodup⟩)
  · rcases messages with perm | ⟨hn', perm⟩
    · exact .inl (perm.subset hm)
    · rcases List.mem_cons.mp (perm.subset hm) with he | hm
      · exact .inr ⟨he, by omega⟩
      · exact .inl hm
  · rcases messages with perm | ⟨-, perm⟩
    · exact perm.symm.subset hm
    · exact perm.symm.subset (List.mem_cons_of_mem _ hm)
  · obtain ⟨ha, d, rfl, rfl⟩ := arrives m arr
    have running : c.phase ≠ .ended := fun he =>
      Bool.false_ne_true ((acc.attends.ended he).1.symm.trans ha)
    have arrived := Subscription.copies_arrive (acc.attends.receiving running) d
    exact Subscription.mem_messages (arrived.symm.subset List.mem_cons_self)

/-- A consumer that is new. -/
theorem Account.new (unknown : ∀ u ∈ ts, u.before.system.consumers[k]? = none)
    (att : Attends c s) (nothing : s.copies = []) : Account ts n k c s := by
  have none : ∀ m, m ∉ s.messages := by
    intro m hm
    unfold Subscription.messages at hm
    rw [nothing] at hm
    cases hm
  have unfinished : ∀ u ∈ ts, ∀ m f, ¬u.Finishes k m f := by
    rintro u hu m f ⟨-, c, c', d, hc, -⟩
    cases (unknown u hu).symm.trans hc
  refine ⟨att, ?_, fun m hm => absurd hm (none m),
    fun u hu m f fu => absurd fu (unfinished u hu m f),
    fun u hu v hv m f g fu fv => absurd fu (unfinished u hu m f), ?_⟩
  · unfold Subscription.messages
    rw [nothing]
    exact .nil
  · rintro u hu m ⟨c, s, payload, hin, -⟩
    cases (unknown u hu).symm.trans (Session.inbox?_eq_some.mp hin).1

/-- A step of the consumer itself. -/
theorem Account.acts {t : System} (acc : Account ts x.system.host.broker.messages k c s)
    (hc : x.system.consumers[k]? = some c) (hc' : t.consumers[k]? = some c')
    (own : Accounted x.system.host c t.host c' s s')
    (hn : x.system.host.broker.messages ≤ t.host.broker.messages)
    (quiet : ∀ m, ¬(⟨x, .agent (.consumer k), { x with system := t }⟩ : Transition).Arrives k m) :
    Account (⟨x, .agent (.consumer k), { x with system := t }⟩ :: ts) t.host.broker.messages k c'
      s' := by
  have ends : ∀ m f,
      (⟨x, .agent (.consumer k), { x with system := t }⟩ : Transition).Finishes k m f →
      ∃ d, d.message = m ∧ Ends x.system.host c t.host c' d f := by
    rintro m f ⟨-, c₁, c₁', d, hc₁, hc₁', hd, he⟩
    obtain rfl := Option.some.inj (hc.symm.trans hc₁)
    obtain rfl := Option.some.inj (hc'.symm.trans hc₁')
    exact ⟨d, hd, he⟩
  have finishes : ∀ d f, Ends x.system.host c t.host c' d f →
      (⟨x, .agent (.consumer k), { x with system := t }⟩ : Transition).Finishes k d.message f :=
    fun d f he => ⟨rfl, c, c', d, hc, hc', rfl, he⟩
  have done : ∀ d f, Ends x.system.host c t.host c' d f →
      s.messages.Perm (d.message :: s'.messages) := fun d f he => (own.done d f he).map Prod.fst
  refine acc.next own.attends hn ?_ (fun m hm => .inl ?_) (fun m hm => ?_) (fun m f fin => ?_)
    fun m arr => absurd arr (quiet m)
  · rcases own.kept with ⟨d, f, he⟩ | perm
    · exact (List.nodup_cons.mp ((done d f he).nodup_iff.mp acc.nodup)).2
    · exact (perm.map Prod.fst).nodup_iff.mpr acc.nodup
  · rcases own.kept with ⟨d, f, he⟩ | perm
    · exact (done d f he).symm.subset (List.mem_cons_of_mem _ hm)
    · exact (perm.map Prod.fst).subset hm
  · rcases own.kept with ⟨d, f, he⟩ | perm
    · rcases List.mem_cons.mp ((done d f he).subset hm) with rfl | hm
      · exact .inr ⟨f, finishes d f he⟩
      · exact .inl hm
    · exact .inl ((perm.map Prod.fst).symm.subset hm)
  · obtain ⟨d, rfl, he⟩ := ends m f fin
    refine ⟨(done d f he).symm.subset List.mem_cons_self,
      (List.nodup_cons.mp ((done d f he).nodup_iff.mp acc.nodup)).1, fun g fin' => ?_⟩
    obtain ⟨e, -, he'⟩ := ends _ g fin'
    exact he.unique he'

/-! ## The accounts in a run -/

/-- The accounts of all consumers that run and do not copy to their own topic. -/
structure Accounts (ts : List Transition) (z : Session) : Prop where
  account : ∀ k c s, z.inbox? k = some (c, s) → c.stopping = false →
    c.policy.deadLetterTopic ≠ c.topic → Account ts z.system.host.broker.messages k c s
  known : ∀ u ∈ ts, u.before.system.consumers.length ≤ z.system.consumers.length

/-- The subscription of a consumer. -/
theorem Apart.subscription (apart : Apart x) (hc : x.system.consumers[k]? = some c) :
    c.subscription ∈ x.system.receivers.all ∧
      ∃ s, x.system.host.broker.subscriptions[c.subscription]? = some s := by
  have mem : c.subscription ∈ x.system.receivers.all :=
    List.mem_append_right _ (List.mem_map_of_mem (List.mem_of_getElem? hc))
  exact ⟨mem, _, List.getElem?_eq_getElem (apart.known _ mem)⟩

theorem Accounts.kept (accs : Accounts ts x) (run : Runs ts x) (h : x.after? a = some y)
    (hc : x.system.consumers[k]? = some c) (ha : a ≠ .agent (.consumer k))
    (hs' : y.system.host.broker.subscriptions[c.subscription]? = some s')
    (running : c.stopping = false) (ht : c.policy.deadLetterTopic ≠ c.topic) :
    Account (⟨x, a, y⟩ :: ts) y.system.host.broker.messages k c s' := by
  obtain ⟨mem, s, hs⟩ := run.apart.subscription hc
  have hin := Session.inbox?_eq_some.mpr ⟨hc, hs⟩
  have acc := accs.account k c s hin running ht
  have receives : (Agent.consumer k).receives? x.system = some c.subscription :=
    congrArg (Option.map Consumer.subscription) hc
  obtain ⟨s'', hs'', out, arrives⟩ := outside_of_after? h run.apart hs mem fun agent he hagent =>
    ha (he.trans (congrArg Action.agent (run.apart.eq_of_receives hagent receives)))
  obtain rfl := Option.some.inj (hs''.symm.trans hs')
  refine acc.outside (messages_le_of_after? h) (out.imp fun _ puts => puts.2.1) ha ?_
  rintro m ⟨c₁, s₁, payload, hin₁, attached, puts⟩
  obtain ⟨rfl, rfl⟩ := Prod.mk.inj (Option.some.inj (hin.symm.trans hin₁))
  refine ⟨attached, ⟨m, payload, 1⟩, rfl, ?_⟩
  rw [arrives m payload (acc.attends.topic ▸ puts)]
  unfold Subscription.receive
  rw [if_pos (by simp [attached])]

theorem Accounts.stepped (accs : Accounts ts x) (run : Runs ts x) (settles : x.Settles)
    {t : System} (h : x.after? (.agent (.consumer k)) = some { x with system := t })
    (hc : x.system.consumers[k]? = some c) (step : Consumer.Step x.system.host c t.host c')
    (hc' : t.consumers[k]? = some c')
    (hs' : t.host.broker.subscriptions[c'.subscription]? = some s')
    (running : c'.stopping = false) (ht : c'.policy.deadLetterTopic ≠ c'.topic) :
    Account (⟨x, .agent (.consumer k), { x with system := t }⟩ :: ts) t.host.broker.messages
      k c' s' := by
  obtain ⟨sameSub, sameStop, samePolicy, sameTopic⟩ := step.same
  rw [sameSub] at hs'
  rw [sameStop] at running
  rw [samePolicy, sameTopic] at ht
  obtain ⟨-, s, hs⟩ := run.apart.subscription hc
  have acc := accs.account k c s (Session.inbox?_eq_some.mpr ⟨hc, hs⟩) running ht
  obtain ⟨s'', own⟩ := step.accounted acc.attends hs running ht settles.1 settles.2
  obtain rfl := Option.some.inj (own.found.symm.trans hs')
  refine acc.acts hc hc' own (messages_le_of_after? h) ?_
  rintro m ⟨c₁, s₁, payload, hin, -, -, -, he | hp⟩
  · cases he
  · obtain rfl := Option.some.inj (hc.symm.trans (Session.inbox?_eq_some.mp hin).1)
    rcases step.published with same | ⟨payload', hp'⟩
    · simpa using same.symm.trans hp
    · obtain ⟨he, -⟩ := Prod.mk.inj
        (List.singleton_inj.mp (List.append_cancel_left (hp'.symm.trans hp)))
      exact ht he

theorem Accounts.next (accs : Accounts ts x) (run : Runs ts x) (settles : x.Settles)
    (h : x.after? a = some y) : Accounts (⟨x, a, y⟩ :: ts) y := by
  have longer := consumers_le_of_after? h
  constructor
  · intro k c' s' hin running ht
    obtain ⟨hc', hs'⟩ := Session.inbox?_eq_some.mp hin
    cases consumed_of_after? h run.apart hc' with
    | kept hc ha same =>
      rcases same with rfl | rfl
      · exact accs.kept run h hc ha hs' running ht
      · cases running
    | stepped hc ha step hy =>
      subst ha hy
      exact accs.stepped run settles h hc step hc' hs' running ht
    | @started topic name policy handler hk he hnew =>
      subst he
      obtain rfl := Option.some.inj (hnew.symm.trans hs')
      refine .new (fun u hu => ?_) ⟨rfl, rfl, rfl, fun _ => rfl, fun he => (nomatch he)⟩ rfl
      rw [List.getElem?_eq_none_iff, ← hk]
      rcases List.mem_cons.mp hu with rfl | hu
      · exact Nat.le_refl _
      · exact accs.known u hu
  · intro u hu
    rcases List.mem_cons.mp hu with rfl | hu
    · exact longer
    · exact Nat.le_trans (accs.known u hu) longer

theorem Runs.accounts (run : Runs ts z) (settles : ∀ u ∈ ts, u.before.Settles) :
    Accounts ts z := by
  induction run with
  | start => exact ⟨fun _ _ _ hin => (nomatch hin), fun _ hu => (nomatch hu)⟩
  | next run h ih =>
    exact (ih fun u hu => settles u (List.mem_cons_of_mem _ hu)).next run
      (settles _ List.mem_cons_self) h

/-- A message that arrived at a consumer was handled and acked, was copied to the
dead-letter topic and acked, or is still outstanding, exactly if it was not lost. -/
theorem arrived_accounted_iff_not_lost (run : Runs ts z) (settles : ∀ u ∈ ts, u.before.Settles)
    (hin : z.inbox? k = some (c, s)) (running : c.stopping = false)
    (ht : c.policy.deadLetterTopic ≠ c.topic) {m : Nat} (arrived : ∃ u ∈ ts, u.Arrives k m) :
    ((∃ u ∈ ts, u.Finishes k m .handled) ∨ (∃ u ∈ ts, u.Finishes k m .copied) ∨ m ∈ s.messages) ↔
      ¬∃ u ∈ ts, u.Finishes k m .lost := by
  have acc := (run.accounts settles).account k c s hin running ht
  constructor
  · rintro accounted ⟨v, hv, lost⟩
    rcases accounted with ⟨u, hu, fu⟩ | ⟨u, hu, fu⟩ | hm
    · cases acc.once u hu v hv m _ _ fu lost
    · cases acc.once u hu v hv m _ _ fu lost
    · exact (acc.finished v hv m _ lost).1 hm
  · intro kept
    obtain ⟨u, hu, arr⟩ := arrived
    rcases acc.complete u hu m arr with hm | ⟨v, hv, fate, fv⟩
    · exact .inr (.inr hm)
    · cases fate with
      | handled => exact .inl ⟨v, hv, fv⟩
      | copied => exact .inr (.inl ⟨v, hv, fv⟩)
      | lost => exact absurd ⟨v, hv, fv⟩ kept

/-- A handler that fails on every message. -/
def failing : Handler where
  decode _ := .ok (.change (creation none))
  duration _ _ := 0
  answer _ _ := .error .closed

/-- The copy of a message fails on its only delivery; the latest action first. -/
def copyFailed : List Action :=
  [.agent (.consumer 0), .agent (.consumer 0), .agent (.consumer 0),
   .perform (.inject "jobs" []), .agent (.consumer 0), .perform (.failPublishes 1),
   .serve "k" "jobs" "monitor" ⟨1, "jobs-dlq"⟩ failing]

set_option maxRecDepth 100000 in
/-- The message that arrived is neither handled nor copied nor outstanding. -/
theorem message_lost :
    ∃ c s, (play copyFailed).2.inbox? 0 = some (c, s) ∧ c.stopping = false ∧
      (∃ u ∈ (play copyFailed).1, u.Arrives 0 0) ∧
      ¬((∃ u ∈ (play copyFailed).1, u.Finishes 0 0 .handled) ∨
        (∃ u ∈ (play copyFailed).1, u.Finishes 0 0 .copied) ∨ 0 ∈ s.messages) := by
  let ts := (play copyFailed).1
  let k : Consumer :=
    { topic := "jobs", policy := ⟨1, "jobs-dlq"⟩, handler := failing, subscription := 0 }
  let s : Subscription := { topic := "jobs", name := "monitor", maxDeliveries := some 1 }
  let arrival : Transition :=
    ⟨(play (copyFailed.drop 4)).2, .perform (.inject "jobs" []), (play (copyFailed.drop 3)).2⟩
  let loss : Transition := ⟨(play (copyFailed.drop 1)).2, .agent (.consumer 0), (play copyFailed).2⟩
  have settles : ∀ u ∈ ts, u.before.Settles := by
    have all : (ts.all fun u => !u.before.system.host.faults.failAck &&
      !u.before.system.host.faults.failNack) = true := by rfl
    intro u hu
    simpa [Session.Settles] using List.all_eq_true.mp all u hu
  let called : Consumer := { k with seen := [.change (creation none)] }
  have found : (play copyFailed).2.inbox? 0 = some (called, s) := by rfl
  have arrived : ∃ u ∈ ts, u.Arrives 0 0 := by
    have earlier : ts[3]? = some arrival := by rfl
    exact ⟨arrival, List.mem_of_getElem? earlier, { k with phase := .waiting }, s, [], by rfl, rfl,
      by rfl, by rfl, .inl rfl⟩
  have lost : ∃ u ∈ ts, u.Finishes 0 0 .lost := by
    have latest : ts[0]? = some loss := by rfl
    refine ⟨loss, List.mem_of_getElem? latest, rfl,
      { called with phase := .burying ⟨0, [], 1⟩ }, called, ⟨0, [], 1⟩, by rfl, by rfl, rfl,
      .lost (by rfl) (by rfl) (by rfl) (Nat.le_refl 1)⟩
  have account := arrived_accounted_iff_not_lost (play_runs copyFailed) settles found rfl
    (by decide) arrived
  exact ⟨_, _, found, rfl, arrived, fun accounted => account.mp accounted lost⟩

end Script

end ChangeDispatch
