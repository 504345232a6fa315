import ExperimentalCrdt.Lib.History
import ExperimentalCrdt.Peers.Discovery

/-!
# Who is registered

What a run of `register` and `deregister` calls leaves in the bucket, for nodes of arbitrary ids.
Listed are the registrations that stand (`mem_listLiveRegistrations_run`): a call put the key
because it found none of its node, and no later call deleted it. That is who registered and did not
deregister since if no id and no address brings a separator along, the final dots are not stored
among the registrations, and every delete of a `deregister` call succeeds (`membership_exact_iff`).
-/

namespace ExperimentalCrdt

open History (Since EnteredSince since_append_singleton enteredSince_append_singleton)

namespace Discovery

/-- The node of that id deregisters. -/
def Call.Deregisters (id : NodeId) : Call → Prop
  | .register _ _ => False
  | .deregister d _ _ => d.nodeId = id

/-- The registration that a call is to make. -/
def registration (self : Discovery) (expiresAt : DateTime) : NodeRegistration :=
  { nodeId := self.nodeId, nodeName := self.nodeId, addr := self.listenAddr,
    gcReplica := self.gcReplica, expiresAt }

/-- The key that a call to `register` puts. -/
def keyOf (d : Discovery) (expiresAt : DateTime) : String :=
  registrationKey d.nodeId expiresAt d.gcReplica d.listenAddr

/-- The parts of the key of a node can be told apart. -/
structure KeyParses (d : Discovery) : Prop where
  nodeId_ne : d.nodeId ≠ ""
  nodeId_separable : SeparableText d.nodeId
  addr_separable : SeparableText d.listenAddr

/-- Moreover the final dots are stored elsewhere. -/
structure KeySafe (gcPrefix : String) (d : Discovery) : Prop extends KeyParses d where
  prefix_apart : startsWith gcPrefix (registrationKeyPrefix d.nodeId) = false

/-- The node finds no key of its own after these calls. -/
def FindsNone (gcPrefix : String) (d : Discovery) (before : List Call) : Prop :=
  ∀ own ∈ run gcPrefix before, startsWith own (registrationKeyPrefix d.nodeId) = false

/-- The registration of `d` stands: the call to `register` found no key, and none deleted its
own. -/
def Standing (gcPrefix : String) (calls : List Call) (d : Discovery) (expiresAt : DateTime) :
    Prop :=
  EnteredSince (FindsNone gcPrefix d) (Call.Deletes (keyOf d expiresAt)) calls
    (.register d expiresAt)

/-- The bucket holds keys that parse, one for each node, and beside them only final dots. -/
structure Orderly (gcPrefix : String) (bucket : Bucket) : Prop where
  mem_key : ∀ k ∈ bucket, (∃ d t, KeyParses d ∧ k = keyOf d t) ∨
    ∃ nodeId finalDot, SeparableText nodeId ∧ k = finalDotKey gcPrefix nodeId finalDot
  unique : ∀ d t d' t', KeyParses d → KeyParses d' → keyOf d t ∈ bucket → keyOf d' t' ∈ bucket →
    d.nodeId = d'.nodeId → keyOf d t = keyOf d' t'

variable {gcPrefix : String} {bucket : Bucket} {d d' : Discovery} {t : DateTime} {id : NodeId}
  {calls : List Call} {k : String} {r : NodeRegistration}

theorem keyOf_own (hd : KeyParses d) (hd' : KeyParses d') :
    startsWith (keyOf d t) (registrationKeyPrefix d'.nodeId) = true ↔ d'.nodeId = d.nodeId :=
  startsWith_registrationKey_iff hd'.nodeId_separable hd.nodeId_separable

theorem nodeId_eq_of_keyOf_eq {t' : DateTime} (hd : KeyParses d) (hd' : KeyParses d')
    (h : keyOf d t = keyOf d' t') : d.nodeId = d'.nodeId := by
  have hown := (keyOf_own (t := t) hd hd).mpr rfl
  rw [h] at hown
  exact (keyOf_own hd' hd).mp hown

theorem finalDotKey_not_own {nodeId : NodeId} {finalDot : Nat} (hnode : SeparableText nodeId)
    (hd : KeySafe gcPrefix d) :
    startsWith (finalDotKey gcPrefix nodeId finalDot) (registrationKeyPrefix d.nodeId) = false := by
  rw [← Bool.not_eq_true, startsWith_finalDotKey_iff hnode, hd.prefix_apart]
  decide

theorem parse_keyOf (hd : KeyParses d) :
    parseRegistrationKey (keyOf d t) = .ok (d.registration t) :=
  parse_registrationKey_iff.mpr ⟨hd.nodeId_ne, hd.nodeId_separable, hd.addr_separable⟩

theorem keyOf_ne_finalDotKey {nodeId : NodeId} {finalDot : Nat} (hd : KeyParses d)
    (hnode : SeparableText nodeId) : keyOf d t ≠ finalDotKey gcPrefix nodeId finalDot := by
  intro heq
  have hparse := parse_keyOf (t := t) hd
  rw [heq] at hparse
  exact parse_finalDotKey_ne hnode _ hparse

/-! ## What is listed -/

theorem Orderly.register (h : Orderly gcPrefix bucket) (hd : KeyParses d) (t : DateTime) :
    Orderly gcPrefix (d.register t bucket) := by
  refine ⟨fun k hk => ?_, fun d₁ t₁ d₂ t₂ h₁ h₂ hk₁ hk₂ hid => ?_⟩
  · rcases mem_register.mp hk with hold | ⟨rfl, -⟩
    · exact h.mem_key k hold
    · exact Or.inl ⟨d, t, hd, rfl⟩
  · -- beside a new key there is none of the node
    have hnone : ∀ {e : Discovery} {s : DateTime}, KeyParses e → d.nodeId = e.nodeId →
        (∀ own ∈ bucket, startsWith own (registrationKeyPrefix d.nodeId) = false) →
        keyOf e s ∉ bucket := by
      intro e s he hde hnone hmem
      have hown := hnone _ hmem
      rw [(keyOf_own he hd).mpr hde] at hown
      cases hown
    rcases mem_register.mp hk₁ with hold₁ | ⟨heq₁, hnone₁⟩
    · rcases mem_register.mp hk₂ with hold₂ | ⟨heq₂, hnone₂⟩
      · exact h.unique d₁ t₁ d₂ t₂ h₁ h₂ hold₁ hold₂ hid
      · have hd₂ : d.nodeId = d₂.nodeId := (nodeId_eq_of_keyOf_eq h₂ hd heq₂).symm
        exact absurd hold₁ (hnone h₁ (hd₂.trans hid.symm) hnone₂)
    · have hd₁ : d.nodeId = d₁.nodeId := (nodeId_eq_of_keyOf_eq h₁ hd heq₁).symm
      rcases mem_register.mp hk₂ with hold₂ | ⟨heq₂, -⟩
      · exact absurd hold₂ (hnone h₂ (hd₁.trans hid) hnone₁)
      · exact heq₁.trans heq₂.symm

theorem Orderly.deregister (h : Orderly gcPrefix bucket) (hid : SeparableText d.nodeId)
    (finalDot : Nat) (failing : List String) :
    Orderly gcPrefix (d.deregister gcPrefix finalDot failing bucket) := by
  have hold : ∀ {e : Discovery} {s : DateTime}, KeyParses e →
      keyOf e s ∈ d.deregister gcPrefix finalDot failing bucket → keyOf e s ∈ bucket := by
    intro e s he hmem
    exact (mem_deregister.mp hmem).1.resolve_left (keyOf_ne_finalDotKey he hid)
  refine ⟨fun k hk => ?_, fun d₁ t₁ d₂ t₂ h₁ h₂ hk₁ hk₂ => ?_⟩
  · rcases (mem_deregister.mp hk).1 with rfl | hmem
    · exact Or.inr ⟨d.nodeId, finalDot, hid, rfl⟩
    · exact h.mem_key k hmem
  · exact h.unique d₁ t₁ d₂ t₂ h₁ h₂ (hold h₁ hk₁) (hold h₂ hk₂)

theorem orderly_run (calls : List Call) (h : ∀ call ∈ calls, KeyParses call.caller) :
    Orderly gcPrefix (run gcPrefix calls) := by
  induction calls using List.reverseRecOn with
  | nil =>
    refine ⟨fun k hk => absurd hk (AList.notMem_empty k), fun d t _ _ _ _ hk => ?_⟩
    exact absurd hk (AList.notMem_empty _)
  | append_singleton calls call ih =>
    have ih := ih fun c hc => h c (List.mem_append_left _ hc)
    have hcall := h call (by simp)
    rw [run_append_singleton]
    cases call with
    | register d t => exact ih.register hcall t
    | deregister d finalDot failing =>
      exact ih.deregister hcall.nodeId_separable finalDot.toNat failing

theorem Orderly.mem_listLiveRegistrations_iff (h : Orderly gcPrefix bucket) :
    r ∈ listLiveRegistrations bucket ↔
      ∃ d t, KeyParses d ∧ keyOf d t ∈ bucket ∧ d.registration t = r := by
  have hparse : ∀ k ∈ bucket, ∀ r, parseRegistrationKey k = .ok r →
      ∃ d t, KeyParses d ∧ k = keyOf d t ∧ d.registration t = r := by
    intro k hk r hr
    rcases h.mem_key k hk with ⟨d, t, hd, rfl⟩ | ⟨nodeId, finalDot, hnode, rfl⟩
    · rw [parse_keyOf hd] at hr
      exact ⟨d, t, hd, rfl, Except.ok.inj hr⟩
    · exact absurd hr (parse_finalDotKey_ne hnode r)
  rw [mem_listLiveRegistrations, lookup_registrationsByNode_iff]
  constructor
  · rintro ⟨k, hk, ⟨hr, -⟩, -⟩
    obtain ⟨d, t, hd, rfl, rfl⟩ := hparse k hk r hr
    exact ⟨d, t, hd, hk, rfl⟩
  · rintro ⟨d, t, hd, hk, rfl⟩
    refine ⟨keyOf d t, hk, ⟨parse_keyOf hd, rfl⟩, fun k' hk' r' hr' hid => ?_⟩
    obtain ⟨d', t', hd', rfl, rfl⟩ := hparse k' hk' r' hr'
    exact le_of_eq (h.unique d' t' d t hd' hd hk' hk hid)

theorem Orderly.mem_listLiveNodeIds_iff (h : Orderly gcPrefix bucket) :
    id ∈ listLiveNodeIds bucket ↔ ∃ d t, KeyParses d ∧ keyOf d t ∈ bucket ∧ d.nodeId = id := by
  rw [mem_listLiveNodeIds_iff_registration]
  constructor
  · rintro ⟨r, hr, rfl⟩
    obtain ⟨d, t, hd, hk, rfl⟩ := h.mem_listLiveRegistrations_iff.mp hr
    exact ⟨d, t, hd, hk, rfl⟩
  · rintro ⟨d, t, hd, hk, rfl⟩
    exact ⟨d.registration t, h.mem_listLiveRegistrations_iff.mpr ⟨d, t, hd, hk, rfl⟩, rfl⟩

theorem mem_run_iff_standing (calls : List Call)
    (h : ∀ call ∈ calls, SeparableText call.caller.nodeId) (hk : parseRegistrationKey k = .ok r) :
    k ∈ run gcPrefix calls ↔ ∃ d t, k = keyOf d t ∧ Standing gcPrefix calls d t := by
  unfold Standing
  induction calls using List.reverseRecOn with
  | nil =>
    refine iff_of_false (AList.notMem_empty k) ?_
    rintro ⟨d, t, -, hstanding⟩
    exact History.not_enteredSince_nil hstanding
  | append_singleton calls call ih =>
    have ih := ih fun c hc => h c (List.mem_append_left _ hc)
    have hcall := h call (by simp)
    rw [run_append_singleton]
    simp only [enteredSince_append_singleton]
    cases call with
    | register d t =>
      show k ∈ d.register t (run gcPrefix calls) ↔ _
      rw [mem_register, ih]
      constructor
      · rintro (⟨d', t', rfl, hstanding⟩ | ⟨rfl, hnone⟩)
        · exact ⟨d', t', rfl, Or.inr ⟨fun hdeletes => hdeletes, hstanding⟩⟩
        · exact ⟨d, t, rfl, Or.inl ⟨rfl, hnone⟩⟩
      · rintro ⟨d', t', rfl, ⟨heq, hnone⟩ | ⟨-, hstanding⟩⟩
        · obtain ⟨rfl, rfl⟩ := Call.register.inj heq
          exact Or.inr ⟨rfl, hnone⟩
        · exact Or.inl ⟨d', t', rfl, hstanding⟩
    | deregister d finalDot failing =>
      have hdot : k ≠ finalDotKey gcPrefix d.nodeId finalDot.toNat := by
        rintro rfl
        exact parse_finalDotKey_ne hcall r hk
      show k ∈ d.deregister gcPrefix finalDot.toNat failing (run gcPrefix calls) ↔ _
      rw [mem_deregister, or_iff_right hdot]
      constructor
      · rintro ⟨hmem, hfails⟩
        obtain ⟨d', t', rfl, hstanding⟩ := ih.mp hmem
        refine ⟨d', t', rfl, Or.inr ⟨fun hdeletes => ?_, hstanding⟩⟩
        exact hdeletes.2 (hfails hmem hdeletes.1)
      · rintro ⟨d', t', rfl, ⟨heq, -⟩ | ⟨hkept, hstanding⟩⟩
        · cases heq
        · refine ⟨ih.mpr ⟨d', t', rfl, hstanding⟩, fun _ hown => ?_⟩
          by_contra hfails
          exact hkept ⟨hown, hfails⟩

theorem Standing.register_mem (h : Standing gcPrefix calls d t) : Call.register d t ∈ calls := by
  obtain ⟨before, after, rfl, -⟩ := h
  exact List.mem_append_right _ List.mem_cons_self

/-- **Listed are the registrations that stand**, after every run of calls by nodes whose keys
parse. -/
theorem mem_listLiveRegistrations_run (calls : List Call)
    (h : ∀ call ∈ calls, KeyParses call.caller) :
    r ∈ listLiveRegistrations (run gcPrefix calls) ↔
      ∃ d t, Standing gcPrefix calls d t ∧ d.registration t = r := by
  have hsep := fun call hcall => (h call hcall).nodeId_separable
  rw [(orderly_run calls h).mem_listLiveRegistrations_iff]
  constructor
  · rintro ⟨d, t, hd, hk, rfl⟩
    obtain ⟨d', t', hkey, hstanding⟩ := (mem_run_iff_standing calls hsep (parse_keyOf hd)).mp hk
    refine ⟨d', t', hstanding, ?_⟩
    have hparse := parse_keyOf (t := t') (h _ hstanding.register_mem)
    rw [show Call.caller (.register d' t') = d' from rfl, ← hkey, parse_keyOf hd] at hparse
    exact (Except.ok.inj hparse).symm
  · rintro ⟨d, t, hstanding, rfl⟩
    have hd : KeyParses d := h _ hstanding.register_mem
    exact ⟨d, t, hd, (mem_run_iff_standing calls hsep (parse_keyOf hd)).mpr ⟨d, t, rfl, hstanding⟩,
      rfl⟩

theorem mem_listLiveNodeIds_run (calls : List Call) (h : ∀ call ∈ calls, KeyParses call.caller) :
    id ∈ listLiveNodeIds (run gcPrefix calls) ↔
    ∃ d t, d.nodeId = id ∧ Standing gcPrefix calls d t := by
  rw [mem_listLiveNodeIds_iff_registration]
  constructor
  · rintro ⟨r, hr, rfl⟩
    obtain ⟨d, t, hstanding, rfl⟩ := (mem_listLiveRegistrations_run calls h).mp hr
    exact ⟨d, t, rfl, hstanding⟩
  · rintro ⟨d, t, rfl, hstanding⟩
    have hr := (mem_listLiveRegistrations_run calls h).mpr ⟨d, t, hstanding, rfl⟩
    exact ⟨d.registration t, hr, rfl⟩

/-! ## What a call changes for nodes whose keys are safe -/

theorem Orderly.own_iff (h : Orderly gcPrefix bucket) (hd : KeySafe gcPrefix d) :
    (∃ own ∈ bucket, startsWith own (registrationKeyPrefix d.nodeId) = true) ↔
      d.nodeId ∈ listLiveNodeIds bucket := by
  rw [h.mem_listLiveNodeIds_iff]
  constructor
  · rintro ⟨own, hmem, hown⟩
    rcases h.mem_key own hmem with ⟨d', t, hd', rfl⟩ | ⟨nodeId, finalDot, hnode, rfl⟩
    · exact ⟨d', t, hd', hmem, ((keyOf_own hd' hd.toKeyParses).mp hown).symm⟩
    · rw [finalDotKey_not_own hnode hd] at hown
      cases hown
  · rintro ⟨d', t, hd', hmem, hid⟩
    exact ⟨keyOf d' t, hmem, (keyOf_own hd' hd.toKeyParses).mpr hid.symm⟩

theorem Orderly.listed_register (h : Orderly gcPrefix bucket) (hd : KeySafe gcPrefix d)
    (t : DateTime) :
    id ∈ listLiveNodeIds (d.register t bucket) ↔ id = d.nodeId ∨ id ∈ listLiveNodeIds bucket := by
  rw [(h.register hd.toKeyParses t).mem_listLiveNodeIds_iff, h.mem_listLiveNodeIds_iff]
  constructor
  · rintro ⟨d', t', hd', hk, rfl⟩
    rcases mem_register.mp hk with hold | ⟨heq, -⟩
    · exact Or.inr ⟨d', t', hd', hold, rfl⟩
    · exact Or.inl (nodeId_eq_of_keyOf_eq hd' hd.toKeyParses heq)
  · rintro (rfl | ⟨d', t', hd', hk, rfl⟩)
    · by_cases hlisted : d.nodeId ∈ listLiveNodeIds bucket
      · obtain ⟨d', t', hd', hk, hid⟩ := h.mem_listLiveNodeIds_iff.mp hlisted
        exact ⟨d', t', hd', mem_register.mpr (Or.inl hk), hid⟩
      · rw [← h.own_iff hd] at hlisted
        push Not at hlisted
        refine ⟨d, t, hd.toKeyParses, mem_register.mpr (Or.inr ⟨rfl, fun own hown => ?_⟩), rfl⟩
        simpa using hlisted own hown
    · exact ⟨d', t', hd', mem_register.mpr (Or.inl hk), rfl⟩

theorem Orderly.listed_deregister (h : Orderly gcPrefix bucket) (hd : KeySafe gcPrefix d)
    (finalDot : Nat) (failing : List String) :
    id ∈ listLiveNodeIds (d.deregister gcPrefix finalDot failing bucket) ↔
      id ∈ listLiveNodeIds bucket ∧ (id = d.nodeId →
        ∃ k ∈ bucket, startsWith k (registrationKeyPrefix d.nodeId) = true ∧ k ∈ failing) := by
  rw [(h.deregister hd.nodeId_separable finalDot failing).mem_listLiveNodeIds_iff,
    h.mem_listLiveNodeIds_iff]
  constructor
  · rintro ⟨d', t', hd', hk, rfl⟩
    obtain ⟨hmem, hfails⟩ := mem_deregister.mp hk
    have hold := hmem.resolve_left (keyOf_ne_finalDotKey hd' hd.nodeId_separable)
    refine ⟨⟨d', t', hd', hold, rfl⟩, fun hid => ?_⟩
    have hown := (keyOf_own (t := t') hd' hd.toKeyParses).mpr hid.symm
    exact ⟨keyOf d' t', hold, hown, hfails hold hown⟩
  · rintro ⟨⟨d', t', hd', hold, rfl⟩, hfails⟩
    refine ⟨d', t', hd', mem_deregister.mpr ⟨Or.inr hold, fun _ hown => ?_⟩, rfl⟩
    have hid := (keyOf_own hd' hd.toKeyParses).mp hown
    obtain ⟨k, hk, hkown, hkfails⟩ := hfails hid.symm
    -- the failing key is the only one of the node
    rcases h.mem_key k hk with ⟨e, s, he, rfl⟩ | ⟨nodeId, dot, hnode, rfl⟩
    · have heid := (keyOf_own he hd.toKeyParses).mp hkown
      rw [h.unique d' t' e s hd' he hold hk (hid.symm.trans heid)]
      exact hkfails
    · rw [finalDotKey_not_own hnode hd] at hkown
      cases hkown

/-! ## Exact listings -/

/-- The listings are exact: they have the nodes that registered and did not deregister since, each
with its own address and role. -/
def Exact (gcPrefix : String) (nodes : List Discovery) (calls : List Call) : Prop :=
  (∀ id, id ∈ listLiveNodeIds (run gcPrefix calls) ↔
      ∃ d t, d.nodeId = id ∧ Since (Call.Deregisters id) calls (.register d t)) ∧
    ∀ r ∈ listLiveRegistrations (run gcPrefix calls),
      ∃ d ∈ nodes, r.nodeId = d.nodeId ∧ r.addr = d.listenAddr ∧ r.gcReplica = d.gcReplica

/-- Every call to `deregister` deletes all the keys that it finds. -/
def DeletesSucceed (gcPrefix : String) (calls : List Call) : Prop :=
  ∀ before d finalDot failing after, calls = before ++ .deregister d finalDot failing :: after →
    ∀ k ∈ run gcPrefix before, startsWith k (registrationKeyPrefix d.nodeId) = true → k ∉ failing

theorem DeletesSucceed.of_append {after : List Call}
    (h : DeletesSucceed gcPrefix (calls ++ after)) :
    DeletesSucceed gcPrefix calls := by
  rintro before d finalDot failing rest rfl
  exact h before d finalDot failing (rest ++ after) (by simp)

theorem mem_listLiveNodeIds_iff_since (calls : List Call)
    (h : ∀ call ∈ calls, KeySafe gcPrefix call.caller) (hdeletes : DeletesSucceed gcPrefix calls) :
    id ∈ listLiveNodeIds (run gcPrefix calls) ↔
      ∃ d t, d.nodeId = id ∧ Since (Call.Deregisters id) calls (.register d t) := by
  induction calls using List.reverseRecOn with
  | nil =>
    rw [mem_listLiveNodeIds_run [] fun call hcall => absurd hcall List.not_mem_nil]
    constructor
    · rintro ⟨_, _, -, hstanding⟩
      exact absurd hstanding History.not_enteredSince_nil
    · rintro ⟨_, _, -, hsince⟩
      exact absurd hsince History.not_since_nil
  | append_singleton calls call ih =>
    have hbefore : ∀ c ∈ calls, KeySafe gcPrefix c.caller :=
      fun c hc => h c (List.mem_append_left _ hc)
    have ih := ih hbefore hdeletes.of_append
    have hcall := h call (by simp)
    have horderly : Orderly gcPrefix (run gcPrefix calls) :=
      orderly_run calls fun c hc => (hbefore c hc).toKeyParses
    rw [run_append_singleton]
    simp only [since_append_singleton]
    cases call with
    | register d t =>
      have hd : KeySafe gcPrefix d := hcall
      show id ∈ listLiveNodeIds (d.register t _) ↔ _
      rw [horderly.listed_register hd, ih]
      constructor
      · rintro (rfl | ⟨d', t', hid, hsince⟩)
        · exact ⟨d, t, rfl, Or.inl rfl⟩
        · exact ⟨d', t', hid, Or.inr ⟨fun h => h, hsince⟩⟩
      · rintro ⟨d', t', rfl, heq | ⟨-, hsince⟩⟩
        · obtain ⟨rfl, rfl⟩ := Call.register.inj heq
          exact Or.inl rfl
        · exact Or.inr ⟨d', t', rfl, hsince⟩
    | deregister d finalDot failing =>
      have hd : KeySafe gcPrefix d := hcall
      have hsucceed := hdeletes calls d finalDot failing [] rfl
      have hgone : (id = d.nodeId → ∃ k ∈ run gcPrefix calls,
          startsWith k (registrationKeyPrefix d.nodeId) = true ∧ k ∈ failing) ↔ d.nodeId ≠ id := by
        constructor
        · rintro hfails rfl
          obtain ⟨k, hk, hown, hkfails⟩ := hfails rfl
          exact hsucceed k hk hown hkfails
        · exact fun hne hid => absurd hid.symm hne
      show id ∈ listLiveNodeIds (d.deregister gcPrefix finalDot.toNat failing _) ↔ _
      rw [horderly.listed_deregister hd, hgone, ih]
      constructor
      · rintro ⟨⟨d', t', hid, hsince⟩, hne⟩
        exact ⟨d', t', hid, Or.inr ⟨hne, hsince⟩⟩
      · rintro ⟨d', t', hid, heq | ⟨hne, hsince⟩⟩
        · cases heq
        · exact ⟨⟨d', t', hid, hsince⟩, hne⟩

theorem deletesSucceed_of_exact {nodes : List Discovery}
    (h : ∀ call ∈ calls, KeySafe gcPrefix call.caller)
    (hexact : ∀ before, before <+: calls → Exact gcPrefix nodes before) :
    DeletesSucceed gcPrefix calls := by
  rintro before d finalDot failing after rfl k hk hown hfails
  have hbefore : ∀ c ∈ before, KeySafe gcPrefix c.caller :=
    fun c hc => h c (List.mem_append_left _ hc)
  have hd : KeySafe gcPrefix d := h (.deregister d finalDot failing) (by simp)
  have horderly : Orderly gcPrefix (run gcPrefix before) :=
    orderly_run before fun c hc => (hbefore c hc).toKeyParses
  have hlisted : d.nodeId ∈
      listLiveNodeIds (run gcPrefix (before ++ [.deregister d finalDot failing])) := by
    rw [run_append_singleton]
    exact (horderly.listed_deregister hd finalDot.toNat failing).mpr
      ⟨(horderly.own_iff hd).mp ⟨k, hk, hown⟩, fun _ => ⟨k, hk, hown, hfails⟩⟩
  obtain ⟨d', t, -, hsince⟩ := ((hexact _ ⟨after, by simp⟩).1 _).mp hlisted
  rcases since_append_singleton.mp hsince with heq | ⟨hother, -⟩
  · cases heq
  · exact hother rfl

theorem mem_run_register : k ∈ run gcPrefix [.register d t] ↔ k = keyOf d t := by
  show k ∈ d.register t ∅ ↔ _
  rw [mem_register]
  constructor
  · rintro (hk | ⟨hk, -⟩)
    · exact absurd hk (AList.notMem_empty k)
    · exact hk
  · intro hk
    exact Or.inr ⟨hk, fun own hown => absurd hown (AList.notMem_empty own)⟩

/-- A node whose final dot is stored among its registrations does not come back. -/
theorem not_listed_of_prefix (hid : SeparableText d.nodeId)
    (hr : parseRegistrationKey (keyOf d t) = .ok r)
    (hgc : startsWith gcPrefix (registrationKeyPrefix d.nodeId) = true) :
    d.nodeId ∉ listLiveNodeIds
      (run gcPrefix [.register d t, .deregister d 0 [], .register d t]) := by
  have hdot : startsWith (finalDotKey gcPrefix d.nodeId 0) (registrationKeyPrefix d.nodeId) =
      true :=
    (startsWith_finalDotKey_iff hid).mpr hgc
  have hkey : startsWith (keyOf d t) (registrationKeyPrefix d.nodeId) = true :=
    (startsWith_registrationKey_iff hid hid).mpr rfl
  -- the departure leaves the final dot only, which then passes for a registration of the node
  have hne : finalDotKey gcPrefix d.nodeId 0 ≠ keyOf d t := by
    intro heq
    rw [← heq] at hr
    exact parse_finalDotKey_ne hid r hr
  have hdeparted : ∀ k, k ∈ run gcPrefix [.register d t, .deregister d 0 []] ↔
      k = finalDotKey gcPrefix d.nodeId 0 := by
    intro k
    rw [show [Call.register d t, .deregister d 0 []] =
      [.register d t] ++ [.deregister d 0 []] from rfl,
      run_append_singleton]
    show k ∈ d.deregister gcPrefix (0 : UInt64).toNat [] (run gcPrefix [.register d t]) ↔ _
    rw [mem_deregister, mem_run_register]
    constructor
    · rintro ⟨rfl | rfl, hkept⟩
      · rfl
      · exact absurd (hkept rfl hkey) List.not_mem_nil
    · rintro rfl
      exact ⟨Or.inl rfl, fun hold => absurd hold hne⟩
  have hblocked : ∀ k, k ∈ run gcPrefix [.register d t, .deregister d 0 [], .register d t] →
      k = finalDotKey gcPrefix d.nodeId 0 := by
    intro k hk
    rw [show [Call.register d t, .deregister d 0 [], .register d t] =
      [.register d t, .deregister d 0 []] ++ [.register d t] from rfl, run_append_singleton] at hk
    rcases mem_register.mp hk with hold | ⟨-, hnone⟩
    · exact (hdeparted k).mp hold
    · have hfalse := hnone _ ((hdeparted _).mpr rfl)
      rw [hdot] at hfalse
      cases hfalse
  intro hmem
  obtain ⟨r, hr⟩ := AList.mem_iff_lookup.mp (mem_listLiveNodeIds.mp hmem)
  obtain ⟨k, hk, ⟨hparse, -⟩, -⟩ := lookup_registrationsByNode_iff.mp hr
  rw [hblocked k hk] at hparse
  exact parse_finalDotKey_ne hid r hparse

/-- **When membership is exact**: throughout every run of calls by these nodes in which all deletes
succeed, and in no other, exactly if no id and no address brings a separator along and the GC prefix
does not begin with the key prefix of a node. -/
theorem membership_exact_iff (gcPrefix : String) (nodes : List Discovery)
    (hids : (nodes.map (·.nodeId)).Nodup) (hne : ∀ d ∈ nodes, d.nodeId ≠ "") :
    (∀ calls, (∀ call ∈ calls, Call.caller call ∈ nodes) →
      ((∀ before, before <+: calls → Exact gcPrefix nodes before) ↔
        DeletesSucceed gcPrefix calls)) ↔
      ∀ d ∈ nodes, SeparableText d.nodeId ∧ SeparableText d.listenAddr ∧
        startsWith gcPrefix (registrationKeyPrefix d.nodeId) = false := by
  constructor
  · intro hexact d hd
    let t : DateTime := ⟨0, by decide⟩
    have hplain : ∀ calls, (∀ call ∈ calls, Call.caller call ∈ nodes) →
        DeletesSucceed gcPrefix calls → Exact gcPrefix nodes calls := fun calls hcalls hdeletes =>
      (hexact calls hcalls).mpr hdeletes calls (List.prefix_refl calls)
    obtain ⟨hlive, hown⟩ := hplain [.register d t] (by simpa [Call.caller] using hd) (by
      intro before d' finalDot failing after heq
      rcases List.cons_eq_append_iff.mp heq with ⟨-, h⟩ | ⟨_, -, h⟩
      · cases h
      · simp at h)
    have hmem := (hlive d.nodeId).mpr ⟨d, t, rfl, [], [], rfl, by simp⟩
    obtain ⟨r, hr⟩ := AList.mem_iff_lookup.mp (mem_listLiveNodeIds.mp hmem)
    obtain ⟨k, hk, ⟨hparse, hid⟩, -⟩ := lookup_registrationsByNode_iff.mp hr
    obtain ⟨d', hd', hid', haddr, -⟩ := hown r (mem_listLiveRegistrations.mpr (hid ▸ hr))
    obtain rfl : d' = d := List.inj_on_of_nodup_map hids hd' hd (hid'.symm.trans hid)
    obtain ⟨-, -, hsid, hsaddr, -⟩ := parseRegistrationKey_eq_ok_iff.mp hparse
    rw [hid] at hsid
    rw [haddr] at hsaddr
    refine ⟨hsid, hsaddr, ?_⟩
    rw [mem_run_register.mp hk] at hparse
    by_contra hgc
    apply not_listed_of_prefix hsid hparse (by simpa using hgc)
    refine ((hplain _ ?_ ?_).1 _).mpr
      ⟨d', t, rfl, [.register d' t, .deregister d' 0 []], [], rfl, by simp⟩
    · simpa [Call.caller] using hd
    · intro before e finalDot failing after heq k _ _
      have hnofail : ∀ call ∈ [Call.register d' t, .deregister d' 0 [], .register d' t],
          ∀ e finalDot failing, call = .deregister e finalDot failing → failing = [] := by
        simp
      rw [hnofail (.deregister e finalDot failing) (by rw [heq]; simp) e finalDot failing rfl]
      exact List.not_mem_nil
  · intro hsafe calls hcalls
    have hkeys : ∀ call ∈ calls, KeySafe gcPrefix call.caller := by
      intro call hcall
      obtain ⟨hid, haddr, hgc⟩ := hsafe _ (hcalls call hcall)
      exact ⟨⟨hne _ (hcalls call hcall), hid, haddr⟩, hgc⟩
    refine ⟨deletesSucceed_of_exact hkeys, fun hdeletes before hbefore => ?_⟩
    obtain ⟨after, rfl⟩ := hbefore
    have hkeys : ∀ call ∈ before, KeySafe gcPrefix call.caller := fun call hcall =>
      hkeys call (List.mem_append_left _ hcall)
    refine ⟨fun id => mem_listLiveNodeIds_iff_since before hkeys hdeletes.of_append, fun r hr => ?_⟩
    obtain ⟨d, t, hstanding, rfl⟩ :=
      (mem_listLiveRegistrations_run before fun call hcall => (hkeys call hcall).toKeyParses).mp hr
    exact ⟨d, hcalls _ (List.mem_append_left _ hstanding.register_mem), rfl, rfl, rfl⟩

/-- The key of `a__b` passes for one of `a`, which then does not register, and does not parse
itself. -/
theorem membership_inexact_separatorInId :
    ∃ a b : Discovery, a.nodeId = "a" ∧ b.nodeId = "a__b" ∧
      ¬ ∀ calls, (∀ call ∈ calls, Call.caller call ∈ [a, b]) → Exact "gc" [a, b] calls := by
  let a : Discovery := ⟨"a", "host", "1", true⟩
  let b : Discovery := ⟨"a__b", "host", "2", true⟩
  let t : DateTime := ⟨0, by decide⟩
  refine ⟨a, b, rfl, rfl, fun hexact => ?_⟩
  have hnone : listLiveNodeIds (run "gc" [.register b t, .register a t]) = [] := by decide +kernel
  have hlive := (hexact [.register b t, .register a t] (by simp [Call.caller])).1 "a"
  rw [hnone] at hlive
  exact absurd (hlive.mpr ⟨a, t, rfl, [.register b t], [], rfl, by simp⟩) List.not_mem_nil

/-- Two nodes with plain ids. -/
theorem membership_exact_plainIds :
    let nodes : List Discovery := [⟨"a", "host", "1", true⟩, ⟨"b", "host", "2", false⟩]
    ∀ calls, (∀ call ∈ calls, Call.caller call ∈ nodes) →
      ((∀ before, before <+: calls → Exact "gc" nodes before) ↔ DeletesSucceed "gc" calls) := by
  intro nodes
  exact (membership_exact_iff "gc" nodes (by decide) (by decide)).mpr (by decide +kernel)

end Discovery

end ExperimentalCrdt
