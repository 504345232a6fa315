import ExperimentalCrdt.Peers.Membership

/-!
# Registrations over time

A registration key spells an expiry, `parse_registration_key` reads it, and nothing compares it with
the time. And `register`, which every process calls periodically, writes only if it finds no key, so
what is listed is a call that found none, however old, until a call deletes its key. The listing is
right as long as exactly the nodes with such a registration still call, from where they called then
(`heartbeat_exact_iff`).
-/

namespace ExperimentalCrdt

open History (Since since_append_singleton)

namespace Discovery

/-- A successful call at a time. A registration expires when the TTL, in milliseconds, has
passed. -/
structure TimedCall (ttl : Nat) where
  now : DateTime
  call : Call
  expires : ∀ d expiresAt, call = .register d expiresAt →
    expiresAt.timestampMillis = now.timestampMillis + ttl

/-- A process calls, or it stops without a call. It restarts with its next call, in whatever
configuration. -/
inductive Event (ttl : Nat) where
  | call (c : TimedCall ttl)
  | crash (nodeId : NodeId)

variable {ttl : Nat}

/-- A call to `register`, at a time for which chrono can add the TTL. -/
def TimedCall.register (d : Discovery) (now : DateTime)
    (h : now.timestampMillis + ttl ≤ 8210266876799999) :
    TimedCall ttl where
  now
  call := .register d ⟨now.timestampMillis + ttl, by have := now.supported; omega, h⟩
  expires := by
    intro d' expiresAt heq
    rw [← (Call.register.inj heq).2]

def timedCalls (events : List (Event ttl)) : List (TimedCall ttl) :=
  events.filterMap fun event =>
    match event with
    | .call c => some c
    | .crash _ => none

def calls (events : List (Event ttl)) : List Call := (timedCalls events).map fun c => c.call

/-- The call is one to `register` with that configuration. -/
def TimedCall.Registers (d : Discovery) (c : TimedCall ttl) : Prop :=
  ∃ expiresAt, c.call = .register d expiresAt

/-- The latest call of the node of `d` is `c`, to register with the configuration `d`. -/
def Latest (events : List (Event ttl)) (d : Discovery) (c : TimedCall ttl) : Prop :=
  c.Registers d ∧ Since (fun c => c.call.caller.nodeId = d.nodeId) (timedCalls events) c

/-- The call is within the TTL before `t`. -/
def TimedCall.Fresh (t : DateTime) (c : TimedCall ttl) : Prop :=
  t.timestampMillis ≤ c.now.timestampMillis + ttl

/-- Listed at `t` is who called within the TTL and did not deregister since, with the configuration
of that call. -/
def HeartbeatExact (gcPrefix : String) (events : List (Event ttl)) (t : DateTime) : Prop :=
  (∀ id, id ∈ listLiveNodeIds (run gcPrefix (calls events)) ↔
    ∃ d c, d.nodeId = id ∧ Latest events d c ∧ c.Fresh t) ∧
    ∀ r ∈ listLiveRegistrations (run gcPrefix (calls events)),
      ∃ d c, d.nodeId = r.nodeId ∧ Latest events d c ∧ r.addr = d.listenAddr ∧
        r.gcReplica = d.gcReplica

section exact

variable {d d' : Discovery} {expiresAt : DateTime} {c c' : TimedCall ttl}
  {events : List (Event ttl)}

theorem Latest.unique (h : Latest events d c) (h' : Latest events d' c')
    (hid : d.nodeId = d'.nodeId) :
    d = d' ∧ c = c' := by
  obtain ⟨⟨t, hc⟩, hsince⟩ := h
  obtain ⟨⟨t', hc'⟩, hsince'⟩ := h'
  rw [hid] at hsince
  obtain rfl : c = c' := by
    refine hsince.unique _ hsince' ?_ ?_
    · rw [hc]
      exact hid
    · rw [hc']
      rfl
  rw [hc] at hc'
  exact ⟨(Call.register.inj hc').1, rfl⟩

/-- **When the listing at `t` is right**: exactly if, of the nodes whose latest call is to register,
those have a registration that stands whose latest call is within the TTL, from the address and in
the role of that registration, and no registration stands of a node whose latest call is another. -/
theorem heartbeat_exact_iff (gcPrefix : String) (events : List (Event ttl)) (t : DateTime)
    (hkeys : ∀ call ∈ calls events, ∀ expiresAt,
      parseRegistrationKey (keyOf call.caller expiresAt) =
        .ok (call.caller.registration expiresAt)) :
    HeartbeatExact gcPrefix events t ↔
      (∀ d c, Latest events d c →
        (c.Fresh t ↔ ∃ d' e, d'.nodeId = d.nodeId ∧ Standing gcPrefix (calls events) d' e) ∧
          ∀ d' e, d'.nodeId = d.nodeId → Standing gcPrefix (calls events) d' e →
            d'.listenAddr = d.listenAddr ∧ d'.gcReplica = d.gcReplica) ∧
        ∀ d e, Standing gcPrefix (calls events) d e → ∃ d' c, d'.nodeId = d.nodeId ∧
        Latest events d' c := by
  have hparses : ∀ call ∈ calls events, KeyParses call.caller := by
    intro call hcall
    obtain ⟨hne, hid, haddr⟩ := parse_registrationKey_iff.mp (hkeys call hcall t)
    exact ⟨hne, hid, haddr⟩
  have hlisted : ∀ {id}, id ∈ listLiveNodeIds (run gcPrefix (calls events)) ↔
      ∃ d e, d.nodeId = id ∧ Standing gcPrefix (calls events) d e :=
        mem_listLiveNodeIds_run (calls events) hparses
  have hlive : ∀ {r}, r ∈ listLiveRegistrations (run gcPrefix (calls events)) ↔
      ∃ d e, Standing gcPrefix (calls events) d e ∧ d.registration e = r :=
    mem_listLiveRegistrations_run (calls events) hparses
  constructor
  · rintro ⟨hids, hown⟩
    refine ⟨fun d c hlatest => ⟨⟨fun hfresh => ?_, ?_⟩, fun d' e hid hstanding => ?_⟩,
      fun d e hstanding => ?_⟩
    · exact hlisted.mp ((hids d.nodeId).mpr ⟨d, c, rfl, hlatest, hfresh⟩)
    · intro hstanding
      obtain ⟨d₁, c₁, hid₁, hlatest₁, hfresh⟩ := (hids d.nodeId).mp (hlisted.mpr hstanding)
      obtain ⟨rfl, rfl⟩ := hlatest₁.unique hlatest hid₁
      exact hfresh
    · obtain ⟨d₁, c₁, hid₁, hlatest₁, haddr, hrole⟩ := hown _ (hlive.mpr ⟨d', e, hstanding, rfl⟩)
      obtain ⟨rfl, rfl⟩ := hlatest₁.unique hlatest (hid₁.trans hid)
      exact ⟨haddr, hrole⟩
    · obtain ⟨d', c, hid, hlatest, -⟩ := (hids d.nodeId).mp (hlisted.mpr ⟨d, e, rfl, hstanding⟩)
      exact ⟨d', c, hid, hlatest⟩
  · rintro ⟨hlatest, hcalls⟩
    refine ⟨fun id => ?_, fun r hr => ?_⟩
    · rw [hlisted]
      constructor
      · rintro ⟨d', e, rfl, hstanding⟩
        obtain ⟨d, c, hid, hc⟩ := hcalls d' e hstanding
        exact ⟨d, c, hid, hc, (hlatest d c hc).1.mpr ⟨d', e, hid.symm, hstanding⟩⟩
      · rintro ⟨d, c, rfl, hc, hfresh⟩
        exact (hlatest d c hc).1.mp hfresh
    · obtain ⟨d', e, hstanding, rfl⟩ := hlive.mp hr
      obtain ⟨d, c, hid, hc⟩ := hcalls d' e hstanding
      obtain ⟨haddr, hrole⟩ := (hlatest d c hc).2 d' e hid.symm hstanding
      exact ⟨d, c, hid, hc, haddr, hrole⟩

/-- A day after the only call, the node that crashed is still listed. -/
theorem heartbeat_inexact_crashed :
    ∃ (P : Discovery) (c : TimedCall 30000) (t : DateTime), P.nodeId = "P" ∧ c.Registers P ∧
      c.now.timestampMillis = 0 ∧ t.timestampMillis = 86400000 ∧
      ¬ HeartbeatExact "gc" [.call c, .crash "P"] t := by
  let P : Discovery := ⟨"P", "host", "1", true⟩
  let c : TimedCall 30000 := .register P ⟨0, by decide⟩ (by decide)
  refine ⟨P, c, ⟨86400000, by decide⟩, rfl, ⟨_, rfl⟩, rfl, rfl, fun hexact => ?_⟩
  have hlisted : "P" ∈ listLiveNodeIds (run "gc" (calls [.call c, .crash "P"])) := by decide +kernel
  obtain ⟨d, c', -, hlatest, hfresh⟩ := (hexact.1 "P").mp hlisted
  obtain rfl : c' = c := List.mem_singleton.mp hlatest.2.mem
  exact absurd hfresh (by unfold TimedCall.Fresh; decide)

/-- A second call from the same address keeps the listing right after the first one expired. -/
theorem heartbeat_exact_secondCall :
    let P : Discovery := ⟨"P", "host", "1", true⟩
    let first : TimedCall 30000 := .register P ⟨0, by decide⟩ (by decide)
    let second : TimedCall 30000 := .register P ⟨20000, by decide⟩ (by decide)
    HeartbeatExact "gc" [.call first, .call second] ⟨40000, by decide⟩ := by
  intro P first second
  have hcaller : ∀ call ∈ calls [.call first, .call second], call.caller = P := by
    intro call hcall
    rcases List.mem_cons.mp hcall with rfl | hcall
    · rfl
    · rw [List.mem_singleton.mp hcall]
      rfl
  have hregisters : ∀ d e, Call.register d e ∈ calls [.call first, .call second] → d = P := by
    intro d e hmem
    exact hcaller _ hmem
  refine (heartbeat_exact_iff "gc" [.call first, .call second] ⟨40000, by decide⟩ ?_).mpr ⟨?_, ?_⟩
  · intro call hcall expiresAt
    rw [hcaller call hcall]
    exact parse_registrationKey_iff.mpr (by decide +kernel)
  · intro d c hlatest
    obtain ⟨e, hregister⟩ := hlatest.1
    obtain rfl : d = P := hregisters d e (hregister ▸ List.mem_map_of_mem hlatest.2.mem)
    obtain rfl : c = second := by
      rcases (since_append_singleton (l := [first])).mp hlatest.2 with rfl | ⟨hne, -⟩
      · rfl
      · exact absurd rfl hne
    refine ⟨iff_of_true (by unfold TimedCall.Fresh; decide) ?_, fun d' e' _ hstanding => ?_⟩
    · refine ⟨P, _, rfl, [], [second.call], rfl,
        fun own hown => absurd hown (AList.notMem_empty own), ?_⟩
      intro call hcall
      rw [List.mem_singleton.mp hcall]
      exact fun hdeletes => hdeletes
    · obtain rfl := hregisters d' e' hstanding.register_mem
      exact ⟨rfl, rfl⟩
  · intro d e hstanding
    obtain rfl := hregisters d e hstanding.register_mem
    exact ⟨P, second, rfl, ⟨_, rfl⟩, [first], [], rfl, by simp⟩

end exact

end Discovery

end ExperimentalCrdt
