import ChangeDispatch.Proofs.Wait.Displacement

/-!
# Handles in use are held

The caller gives no two handles one name, so a name that is given again, waited on or dropped
stands for one handle. No handle is lost therefore: one that is in use at a correlator is held
under a name of the caller or by a call, until it is let go of. A handle comes into use only
when a wait is registered, and then the deadline of the wait runs.
-/
namespace ChangeDispatch

/-! ## Handles in use -/

section

variable {rs : List WaitRegistry} {c : Nat} {r s : WaitRegistry} {handle other : WaitHandle}

/-- A registry changes, and its handles stay in use. -/
theorem serialsAt_modify {f : WaitRegistry → WaitRegistry}
    (same : ∀ r ∈ rs, (f r).serials = r.serials) (c i : Nat) :
    serialsAt (rs.modify c f) i = serialsAt rs i := by
  unfold serialsAt
  rw [List.getElem?_modify]
  cases hr : rs[i]? with
  | none => rfl
  | some r =>
    by_cases hc : c = i
    · simp [hc, same r (List.mem_of_getElem? hr)]
    · simp [hc]

theorem serialsAt_start (rs : List WaitRegistry) (i : Nat) :
    serialsAt (rs ++ [({} : WaitRegistry)]) i = serialsAt rs i := by
  unfold serialsAt
  cases hs : (rs ++ [({} : WaitRegistry)])[i]? with
  | none =>
    have := List.getElem?_eq_none_iff.mp hs
    rw [List.length_append] at this
    rw [List.getElem?_eq_none (by omega)]
  | some s =>
    rcases getElem?_concat_cases hs with old | ⟨rfl, rfl⟩
    · rw [old]
    · simp [WaitRegistry.serials]

/-- A handle that is let go of is not in use any more. -/
theorem of_mem_serialsAt_release (wf : ∀ r ∈ rs, r.WellFormed)
    (h : other.serial ∈ serialsAt (rs.modify handle.correlator (·.release handle.serial))
      other.correlator) : other.serial ∈ serialsAt rs other.correlator ∧ other ≠ handle := by
  unfold serialsAt at h ⊢
  rw [List.getElem?_modify] at h
  cases hr : rs[other.correlator]? with
  | none => rw [hr] at h; cases h
  | some r =>
    rw [hr] at h
    by_cases hc : handle.correlator = other.correlator
    · have left : other.serial ∈ (r.release handle.serial).serials := by simpa [hc] using h
      rw [(wf r (List.mem_of_getElem? hr)).serials_release, List.mem_filter] at left
      refine ⟨left.1, fun same => ?_⟩
      rw [same] at left
      simp at left
    · exact ⟨by simpa [hc] using h, fun same => hc (by rw [same])⟩

/-- A registration takes one handle into use. -/
theorem of_mem_serialsAt_register {event : ChangeEvent} {now : Nat} {timeout : Duration} {w : Waiter}
    (hr : rs[c]? = some r) (hok : r.register event now timeout = .ok (w, s))
    (h : other.serial ∈ serialsAt (rs.set c s) other.correlator) :
    other.serial ∈ serialsAt rs other.correlator ∨ other = ⟨c, w.serial⟩ := by
  by_cases hc : c = other.correlator
  · have after : (rs.set c s)[other.correlator]? = some s := by
      rw [← hc]
      exact List.getElem?_set_self (List.getElem?_eq_some_iff.mp hr).1
    rw [serialsAt_of_getElem? after, WaitRegistry.serials_register hok] at h
    rw [serialsAt_of_getElem? (hc ▸ hr)]
    rcases List.mem_append.mp h with old | new
    · exact .inl old
    · refine .inr ?_
      rw [hc, ← List.mem_singleton.mp new]
  · unfold serialsAt at h ⊢
    rw [List.getElem?_set_ne hc] at h
    exact .inl h

end

namespace Script

/-! ## Names -/

namespace Names

variable {α : Type} {names : Names α} {id : String} {value : α}

/-- No two objects have one name. -/
def Apart (names : Names α) : Prop := (names.map Prod.fst).Nodup

theorem Apart.erase (h : names.Apart) (id : String) : (names.erase id).Apart :=
  h.sublist (List.filter_sublist.map _)

theorem Apart.insert (h : names.Apart) (id : String) (value : α) :
    (names.insert id value).Apart := by
  refine List.nodup_cons.mpr ⟨fun mem => ?_, h.erase id⟩
  obtain ⟨entry, he, same⟩ := List.mem_map.mp mem
  have other := (List.mem_filter.mp he).2
  simp [same] at other

theorem lookup_of_mem {entry : String × α} (h : names.Apart) (he : entry ∈ names) :
    names.find? entry.1 = some entry.2 := by
  induction names with
  | nil => cases he
  | cons first names ih =>
    obtain ⟨hnot, apart⟩ := List.nodup_cons.mp h
    unfold find?
    rcases List.mem_cons.mp he with rfl | he
    · exact List.lookup_cons_self
    · have other : (entry.1 == first.1) = false := by
        rw [beq_eq_false_iff_ne]
        intro same
        exact hnot (same ▸ List.mem_map_of_mem he)
      rw [List.lookup_cons, other]
      exact ih apart he

/-- What a name stands for is all that goes with it. -/
theorem Apart.mem_erase (h : names.Apart) {kept : α} (mem : kept ∈ names.map Prod.snd)
    (other : ∀ value, names.find? id = some value → kept ≠ value) :
    kept ∈ (names.erase id).map Prod.snd := by
  obtain ⟨entry, he, rfl⟩ := List.mem_map.mp mem
  refine List.mem_map_of_mem (List.mem_filter.mpr ⟨he, ?_⟩)
  rw [bne_iff_ne]
  rintro rfl
  exact other entry.2 (lookup_of_mem h he) rfl

end Names

/-! ## What an action does to the handles -/

namespace Session

def InUse (x : Session) (handle : WaitHandle) : Prop :=
  handle.serial ∈ serialsAt x.system.registries handle.correlator

theorem inUse_of_mem {x : Session} {c : Nat} {r : WaitRegistry} {w : Waiter}
    (hr : x.registry? c = some r) (hw : w ∈ r.waiters) : x.InUse ⟨c, w.serial⟩ :=
  mem_serialsAt.mpr ⟨r, hr, w, hw, rfl⟩

/-- A wait is registered under this handle, at the moment that the clock shows. -/
def Admits (x y : Session) (handle : WaitHandle) : Prop :=
  ∃ co event w r, x.system.correlators[handle.correlator]? = some co ∧
    co.registry.register event x.system.host.now co.timeout = .ok (w, r) ∧
    w.serial = handle.serial ∧
    ∀ s, y.system.registries[handle.correlator]? = some s → r.Descends s

/-- No name is given twice, no handle comes into use, and none that stays in use is lost. -/
structure Keeps (x y : Session) : Prop where
  names : y.waiters.Apart
  kept : ∀ handle, y.InUse handle → x.InUse handle ∧ (handle ∈ x.handles → handle ∈ y.handles)

/-- The same, but a handle may come into use, which is held then. -/
structure Minds (x y : Session) : Prop where
  names : y.waiters.Apart
  held : ∀ handle, y.InUse handle →
    x.InUse handle ∧ (handle ∈ x.handles → handle ∈ y.handles) ∨
      handle ∈ y.handles ∧ x.Admits y handle

variable {x y u : Session} {handle : WaitHandle}

theorem Keeps.minds (h : Keeps x y) : Minds x y := ⟨h.names, fun _ hu => .inl (h.kept _ hu)⟩

theorem Keeps.of_serialsAt (names : y.waiters.Apart)
    (inUse : ∀ i, serialsAt y.system.registries i = serialsAt x.system.registries i)
    (held : x.handles ⊆ y.handles) : Keeps x y :=
  ⟨names, fun handle h => ⟨by unfold InUse at h ⊢; rwa [inUse] at h, fun mem => held mem⟩⟩

/-- A handle is let go of, and the others are held as before. -/
theorem Keeps.of_release {g : WaitHandle} (names : y.waiters.Apart)
    (wf : ∀ r ∈ x.system.registries, r.WellFormed)
    (released : y.system.registries =
      x.system.registries.modify g.correlator (·.release g.serial))
    (held : ∀ handle ∈ x.handles, handle ≠ g → handle ∈ y.handles) : Keeps x y := by
  refine ⟨names, fun handle h => ?_⟩
  unfold InUse at h
  rw [released] at h
  obtain ⟨before, other⟩ := of_mem_serialsAt_release wf h
  exact ⟨before, fun mem => held handle mem other⟩

theorem Minds.of_elsewhere (h : Minds x u) (e : Elsewhere u y) : Minds x y := by
  refine ⟨e.waiters ▸ h.names, fun handle hu => ?_⟩
  unfold Admits
  rw [e.handles, e.registries]
  refine h.held handle ?_
  unfold InUse at hu ⊢
  rwa [← e.registries]

theorem mem_handles_iff :
    handle ∈ x.handles ↔ handle ∈ x.waiters.map Prod.snd ∨ handle ∈ x.system.held :=
  List.mem_append

/-! ## The caller -/

/-- A name is dropped with the handle that it stands for. -/
theorem keeps_dropWaiter (names : x.waiters.Apart)
    (wf : ∀ r ∈ x.system.registries, r.WellFormed) (id : String) : Keeps x (x.dropWaiter id) := by
  unfold dropWaiter
  cases hf : x.waiters.find? id with
  | none => exact .of_serialsAt names (fun _ => rfl) (List.Subset.refl _)
  | some dropped =>
    have released := System.registries_adjust x.system dropped.correlator fun r =>
      r.release dropped.serial
    refine .of_release (names.erase id) wf released fun handle mem other => ?_
    rcases mem_handles_iff.mp mem with own | byCall
    · refine mem_handles_iff.mpr (.inl (names.mem_erase own fun value hv => ?_))
      rwa [← Option.some.inj (hf.symm.trans hv)]
    · exact mem_handles_iff.mpr (.inr byCall)

theorem find?_dropWaiter (x : Session) (id : String) :
    (x.dropWaiter id).waiters.find? id = none := by
  unfold dropWaiter
  cases hf : x.waiters.find? id with
  | none => exact hf
  | some dropped =>
    refine List.lookup_eq_none_iff.mpr fun entry he => ?_
    have other := (List.mem_filter.mp he).2
    rw [bne_iff_ne] at other ⊢
    exact other.symm

theorem descends_dropWaiter (wf : ∀ r ∈ x.system.registries, r.WellFormed) (id : String) {c : Nat}
    {r s : WaitRegistry} (hr : x.system.registries[c]? = some r)
    (hs : (x.dropWaiter id).system.registries[c]? = some s) : r.Descends s := by
  unfold dropWaiter at hs
  cases hf : x.waiters.find? id with
  | none =>
    rw [hf] at hs
    obtain rfl := Option.some.inj (hr.symm.trans hs)
    exact .refl r
  | some dropped =>
    have released := System.registries_adjust x.system dropped.correlator fun r =>
      r.release dropped.serial
    rw [hf] at hs
    change (System.registries (x.system.adjustCorrelator _ _))[c]? = some s at hs
    rw [released, List.getElem?_modify, hr] at hs
    by_cases hc : dropped.correlator = c
    · obtain rfl : r.release dropped.serial = s := by simpa [hc] using hs
      exact (wf r (List.mem_of_getElem? hr)).descends_release _
    · obtain rfl : r = s := by simpa [hc] using hs
      exact .refl r

/-- A wait is registered by the caller, which gives its handle a name. -/
theorem minds_register (names : x.waiters.Apart)
    (owned : Owned x.system.registries x.handles) {c : Nat} {co : Correlator} {event : ChangeEvent}
    {w : Waiter} {r : WaitRegistry} (hc : x.system.correlators[c]? = some co)
    (hr : co.registry.register event x.system.host.now co.timeout = .ok (w, r)) {id : String}
    (hu : u = (x.onSystem (·.adjustCorrelator c fun co => { co with registry := r })).dropWaiter
      id) :
    Minds x { u with waiters := u.waiters.insert id ⟨c, w.serial⟩ } := by
  let v := x.onSystem (·.adjustCorrelator c fun co => { co with registry := r })
  have found := System.getElem?_registries hc
  have put : v.system.registries = x.system.registries.set c r := System.registries_put r
  have registered : Owned v.system.registries (⟨c, w.serial⟩ :: x.handles) :=
    put ▸ owned.register found hr
  have dropped : Keeps v u := hu ▸ keeps_dropWaiter (x := v) names registered.wellFormed id
  have free : u.waiters.find? id = none := hu ▸ v.find?_dropWaiter id
  refine ⟨dropped.names.insert id _, fun handle h => ?_⟩
  obtain ⟨inUse, stays⟩ := dropped.kept handle h
  unfold InUse at inUse
  rw [put] at inUse
  rcases of_mem_serialsAt_register found hr inUse with before | rfl
  · refine .inl ⟨before, fun mem => ?_⟩
    rcases mem_handles_iff.mp (stays mem) with own | byCall
    · refine mem_handles_iff.mpr (.inl (List.mem_cons_of_mem _ (dropped.names.mem_erase own ?_)))
      intro value hv
      cases free.symm.trans hv
    · exact mem_handles_iff.mpr (.inr byCall)
  · refine .inr ⟨mem_handles_iff.mpr (.inl List.mem_cons_self), co, event, w, r, hc, hr, rfl, ?_⟩
    intro s hs
    have after : v.system.registries[c]? = some r := by
      rw [put]
      exact List.getElem?_set_self (List.getElem?_eq_some_iff.mp found).1
    subst hu
    exact descends_dropWaiter registered.wellFormed id after hs

theorem held_startCall (s : System) (owner : Owner) (φ : Call.Phase) :
    (s.startCall owner φ).2.held = s.held ++ φ.handle?.toList := by
  unfold System.held System.startCall
  rw [List.filterMap_append]
  cases h : φ.handle? <;> simp [h]

theorem minds_effect (names : x.waiters.Apart) (owned : Owned x.system.registries x.handles)
    (h : Effect x y) : Minds x y := by
  have same : ∀ {s : System}, s.registries = x.system.registries → s.calls = x.system.calls →
      Minds x (x.onSystem fun _ => s) := by
    intro s registries calls
    refine Keeps.minds (.of_serialsAt names (fun i => ?_) fun handle mem => ?_)
    · exact congrArg (serialsAt · i) registries
    · unfold handles System.held onSystem
      rwa [calls]
  cases h with
  | nothing => exact same (s := x.system) rfl rfl
  | closedBroker => exact same (s := x.system.setBroker x.system.host.broker.close) rfl rfl
  | @called owner φ hφ =>
    refine Keeps.minds (.of_serialsAt names (fun _ => rfl) fun handle mem => ?_)
    rcases mem_handles_iff.mp mem with own | byCall
    · exact mem_handles_iff.mpr (.inl own)
    · refine mem_handles_iff.mpr (.inr ?_)
      change handle ∈ (x.system.startCall owner φ).2.held
      rw [held_startCall]
      exact List.mem_append_left _ byCall
  | @waited id waited token hw =>
    refine Keeps.minds (.of_serialsAt (names.erase id) (fun _ => rfl) fun handle mem => ?_)
    have held : ({ x with system := (x.system.startCall .none (.awaiting waited token)).2
                          waiters := x.waiters.erase id } : Session).system.held =
        x.system.held ++ [waited] := held_startCall _ _ _
    refine mem_handles_iff.mpr ?_
    rw [held]
    rcases mem_handles_iff.mp mem with own | byCall
    · by_cases new : handle = waited
      · exact .inr (List.mem_append_right _ (List.mem_singleton.mpr new))
      · refine .inl (names.mem_erase own fun value hv => ?_)
        rwa [← Option.some.inj (hw.symm.trans hv)]
    · exact .inr (List.mem_append_left _ byCall)
  | @registered c co event w r id u hc hr hu => exact minds_register names owned hc hr hu
  | droppedWaiter id => exact (keeps_dropWaiter names owned.wellFormed id).minds
  | @aborted n call hc _ _ =>
    have phase : x.system.phase? n = some call.phase := by
      unfold System.phase?
      rw [hc]
      rfl
    obtain ⟨rest, before, after⟩ := x.system.held_setPhase phase .aborted
    have left : ((x.system.forsake n call.phase).setPhase n .aborted).held.Perm rest := by
      unfold System.held System.setPhase
      rw [(System.UpToRegistries.forsake x.system n call.phase).calls]
      exact after
    have registries : ((x.system.forsake n call.phase).setPhase n .aborted).registries = _ :=
      System.registries_forsake x.system n call.phase
    have kept : ∀ handle ∈ x.handles, call.phase.handle? ≠ some handle →
        handle ∈ (x.onSystem fun s => (s.forsake n call.phase).setPhase n .aborted).handles := by
      intro handle mem other
      refine mem_handles_iff.mpr ((mem_handles_iff.mp mem).imp_right fun byCall => ?_)
      refine left.mem_iff.mpr ((List.mem_append.mp (before.mem_iff.mp byCall)).resolve_left ?_)
      simpa using other
    cases hh : call.phase.handle? with
    | none =>
      rw [hh] at registries kept
      exact Keeps.minds (.of_serialsAt names (fun i => congrArg (serialsAt · i) registries)
        fun handle mem => kept handle mem (by simp))
    | some g =>
      rw [hh] at registries kept
      refine Keeps.minds (.of_release names owned.wellFormed registries fun handle mem other => ?_)
      exact kept handle mem fun same => other (Option.some.inj same).symm
  | @openedPublisher config subscription i host _ _ _ =>
    have added : ({ x.system with host }.addPublisher config i).2.registries =
        x.system.registries ++ [({} : WaitRegistry)] := List.map_append
    refine Keeps.minds (.of_serialsAt names (fun j => ?_) (List.Subset.refl _))
    exact (congrArg (serialsAt · j) added).trans (serialsAt_start _ j)
  | @startedCorrelator subscription timeout unmatchedDelay i host _ =>
    have added : ({ x.system with host }.addCorrelator i timeout unmatchedDelay).2.registries =
        x.system.registries ++ [({} : WaitRegistry)] := List.map_append
    refine Keeps.minds (.of_serialsAt names (fun j => ?_) (List.Subset.refl _))
    exact (congrArg (serialsAt · j) added).trans (serialsAt_start _ j)
  | startedConsumer _ _ => exact same rfl rfl
  | stoppedConsumer _ => exact same rfl rfl

/-! ## Agents -/

theorem minds_call (names : x.waiters.Apart) (owned : Owned x.system.registries x.handles)
    {n : Nat} {t : System} (h : (Agent.call n).step? x.system = some t) :
    Minds x { x with system := t } := by
  obtain ⟨φ, hφ, u, ψ, step, quiet⟩ := System.callSteps_of_stepCall? h
  obtain ⟨rest, before, after⟩ := x.system.held_setPhase hφ ψ
  have left : t.held.Perm (ψ.handle?.toList ++ rest) := by
    rw [quiet.held]
    unfold System.held System.setPhase
    rw [step.calls_eq]
    exact after
  have registries : t.registries = u.registries := quiet.registries
  have kept : ∀ handle ∈ x.handles, φ.handle? ≠ some handle ∨ ψ.handle? = φ.handle? →
      handle ∈ ({ x with system := t } : Session).handles := by
    intro handle mem other
    refine mem_handles_iff.mpr ((mem_handles_iff.mp mem).imp_right fun byCall => ?_)
    refine left.mem_iff.mpr (List.mem_append.mpr ?_)
    rcases List.mem_append.mp (before.mem_iff.mp byCall) with own | others
    · rcases other with other | same
      · exact absurd (by simpa using own) other
      · exact .inl (same ▸ own)
    · exact .inr others
  rcases step.waits_cases with ⟨hh, hr⟩ | ⟨g, hh, hn, hr⟩ |
    ⟨c, co, event, w, r, hh, hn, hc, hok, hr⟩ | ⟨c, hh, hn, hr⟩
  · refine Keeps.minds (.of_serialsAt names (fun i => ?_) fun handle mem => ?_)
    · exact congrArg (serialsAt · i) (registries.trans hr)
    · exact kept handle mem (.inr hh)
  · refine Keeps.minds (.of_release names owned.wellFormed (registries.trans hr) ?_)
    intro handle mem other
    exact kept handle mem (.inl fun same => other (Option.some.inj (hh.symm.trans same)).symm)
  · refine ⟨names, fun handle inUse => ?_⟩
    unfold InUse at inUse
    rw [show ({ x with system := t } : Session).system.registries = _ from registries.trans hr]
      at inUse
    rcases of_mem_serialsAt_register (System.getElem?_registries hc) hok inUse with old | rfl
    · exact .inl ⟨old, fun mem => kept handle mem (.inl (by simp [hh]))⟩
    · refine .inr ⟨mem_handles_iff.mpr (.inr (left.mem_iff.mpr ?_)),
        co, event, w, r, hc, hok, rfl, fun s hs => ?_⟩
      · simp [hn]
      · dsimp only at hs
        rw [registries.trans hr, List.getElem?_set_self] at hs
        · exact Option.some.inj hs ▸ .refl r
        · exact (List.getElem?_eq_some_iff.mp (System.getElem?_registries hc)).1
  · refine Keeps.minds (.of_serialsAt names (fun i => ?_) fun handle mem => ?_)
    · refine (congrArg (serialsAt · i) (registries.trans hr)).trans ?_
      exact serialsAt_modify (fun r hr => (owned.wellFormed r hr).serials_close) c i
    · exact kept handle mem (.inr (hn.trans hh.symm))

/-- Whatever is offered to a registry, its handles stay in use. -/
theorem serials_of_step? {h k : Host} {co co' : Correlator} (wf : co.registry.WellFormed)
    (hs : co.step? h = some (k, co')) : co'.registry.serials = co.registry.serials := by
  cases Correlator.step_of_step? hs with
  | moved _ _ => rfl
  | finished _ => rfl
  | settled _ _ _ settles _ =>
    cases settles with
    | refused _ => rfl
    | @taken ack _ s _ ho =>
      have same := wf.serials_offer ack
      rwa [ho] at same
    | unclaimed _ _ _ => exact wf.serials_offer _

theorem minds_agent (names : x.waiters.Apart) (owned : Owned x.system.registries x.handles)
    {agent : Agent} {t : System} (h : agent.step? x.system = some t) :
    Minds x { x with system := t } := by
  have same : (∀ i, serialsAt t.registries i = serialsAt x.system.registries i) →
      t.calls = x.system.calls → Minds x { x with system := t } := by
    intro inUse calls
    refine Keeps.minds (.of_serialsAt names inUse fun handle mem => ?_)
    unfold handles System.held at mem ⊢
    rwa [calls]
  cases agent with
  | worker i =>
    obtain ⟨p, q, host, q', w, -, -, -, rfl⟩ := Agent.step?_worker h
    exact same (fun _ => rfl) rfl
  | listener c =>
    obtain ⟨co, host, co', hc, hs, rfl⟩ := Agent.step?_listener h
    refine same (fun i => ?_) rfl
    have found := System.getElem?_registries hc
    have put : ({ x.system with host }.adjustCorrelator c fun _ => co').registries =
        x.system.registries.modify c fun _ => co'.registry :=
      map_modify (f := fun _ => co') (k := fun _ => co'.registry) (fun _ => rfl) _ _
    unfold serialsAt
    rw [put, List.getElem?_modify]
    by_cases hi : c = i
    · subst hi
      rw [found]
      simpa using serials_of_step? (owned.wellFormed_at found) hs
    · simp [hi]
  | consumer i =>
    obtain ⟨k, host, k', -, -, rfl⟩ := Agent.step?_consumer h
    exact same (fun _ => rfl) rfl
  | call n => exact minds_call names owned h
  | redelivery i serial =>
    obtain ⟨entry, -, -, rfl⟩ := Agent.step?_redelivery h
    exact same (fun _ => rfl) rfl

/-- Every action minds the handles. -/
theorem minds_of_after? {a : Action} (names : x.waiters.Apart)
    (owned : Owned x.system.registries x.handles) (h : x.after? a = some y) : Minds x y := by
  cases moves_of_after? h with
  | performed _ hp =>
    obtain ⟨u, hu, he⟩ := hp
    exact (minds_effect names owned hu).of_elsewhere he
  | injected _ _ => exact Keeps.minds (.of_serialsAt names (fun _ => rfl) (List.Subset.refl _))
  | passed _ => exact Keeps.minds (.of_serialsAt names (fun _ => rfl) (List.Subset.refl _))
  | stepped hs => exact minds_agent names owned hs

end Session

/-! ## Runs -/

variable {ts : List Transition} {z : Session}

/-- No two handles of the caller have one name. -/
theorem Runs.names (run : Runs ts z) : z.waiters.Apart := by
  induction run with
  | start => exact List.nodup_nil
  | next run h ih => exact (Session.minds_of_after? ih run.owned h).names

/-- Every handle in use is held. -/
theorem Runs.held (run : Runs ts z) {handle : WaitHandle} (inUse : z.InUse handle) :
    handle ∈ z.handles := by
  induction run with
  | start => simp [Session.InUse, serialsAt, System.registries] at inUse
  | next run h ih =>
    rcases (Session.minds_of_after? run.names run.owned h).held handle inUse with
      ⟨before, kept⟩ | ⟨held, -⟩
    · exact kept (ih before)
    · exact held

/-- The wait of `w` is registered, to last for the timeout of its correlator. -/
def Transition.Begins (t : Transition) (c : Nat) (w : Waiter) : Prop :=
  ∃ co event r, t.before.system.correlators[c]? = some co ∧
    co.registry.register event t.before.system.host.now co.timeout = .ok (w, r)

/-- Every waiter in use was registered in the run. -/
theorem Runs.begun (run : Runs ts z) {c : Nat} {r : WaitRegistry} (hr : z.registry? c = some r)
    {w : Waiter} (hw : w ∈ r.waiters) : ∃ u ∈ ts, u.Begins c w.registered := by
  induction run generalizing r w with
  | start => cases hr
  | @next ts x y a run h ih =>
    have run' := Runs.next run h
    rcases (Session.minds_of_after? run.names run.owned h).held _ (Session.inUse_of_mem hr hw) with
      ⟨before, -⟩ | ⟨-, co, event, v, q, hc, hok, serial, descends⟩
    · -- the waiter of the handle is the one that was there before
      obtain ⟨q, hq, v, hv, serial⟩ := mem_serialsAt.mp before
      obtain ⟨s, hs, step⟩ := (Session.waitChange_of_after? h).step run.owned hq
      obtain rfl := Option.some.inj (hr.symm.trans hs)
      have wf := run.wellFormed hq
      rcases (wf.descends step).waiters w hw with ⟨v', hv', same, -⟩ | new
      · obtain ⟨u, hu, begins⟩ := ih hq hv'
        exact ⟨u, List.mem_cons_of_mem _ hu, same ▸ begins⟩
      · have := wf.fresh v hv
        dsimp only at serial
        omega
    · refine ⟨_, List.mem_cons_self, co, event, q, hc, ?_⟩
      have wf := (run.wellFormed (System.getElem?_registries hc)).register hok
      obtain ⟨-, -, slot, -, -, -, rfl⟩ := WaitRegistry.register_ok hok
      have hv : v ∈ co.registry.waiters ++ [v] := List.mem_append_right _ List.mem_cons_self
      rcases (descends r hr).waiters w hw with ⟨v', hv', same, -⟩ | new
      · obtain rfl := wf.eq_of_serial hv' hv ((Waiter.of_registered same).1.trans serial.symm)
        rw [← same, Waiter.registered, ← slot]
        exact hok
      · have := wf.fresh v hv
        dsimp only at this new serial
        omega

end Script

end ChangeDispatch
