import ExperimentalCrdt.Gc.Departures
import ExperimentalCrdt.Peers.Membership

/-!
# The storage of the GC protocol and its keys

`Gc/Storage.lean` has registrations as a set of ids and final dots as a list of pairs. Here they are
keys in a bucket, written by the calls of `peers/discovery.rs`, and as long as the keys are safe the
bucket refines that storage: whatever the calls, both list the same members (`listLiveNodeIds_run`)
and read the same final dots (`lookup_readFinalDots_run`).
-/

namespace ExperimentalCrdt

open Discovery (Call KeySafe run)
open S3GcStorage (departures departureKey EndsInSlash parse_finalDotKey parse_registrationKey)
open Text (append_le_append_iff value_toDigits)

namespace Storage

variable {E : Type}

/-- What a call does to the storage: the registration goes if no delete of the keys that it finds
fails. -/
def applyCall (bucket : Bucket) (st : Storage E) : Call → Storage E
  | .register d _ => st.register d.nodeId
  | .deregister d finalDot failing =>
    let put := st.putFinalDot d.nodeId finalDot.toNat
    if ∃ k ∈ bucket.listObjectKeys (registrationKeyPrefix d.nodeId), k ∈ failing then put
    else put.deleteRegistration d.nodeId

/-- The bucket and the storage after a sequence of calls. -/
def runBoth (E : Type) (gcPrefix : String) (calls : List Call) : Bucket × Storage E :=
  calls.foldl (fun s call => (Discovery.apply gcPrefix s.1 call, s.2.applyCall s.1 call))
    (∅, fresh ∅)

def runCalls (E : Type) (gcPrefix : String) (calls : List Call) : Storage E :=
  (runBoth E gcPrefix calls).2

variable {gcPrefix : String} {id : NodeId} {calls : List Call}

theorem runBoth_append_singleton (calls : List Call) (call : Call) :
    runBoth E gcPrefix (calls ++ [call]) =
      (Discovery.apply gcPrefix (runBoth E gcPrefix calls).1 call,
      (runBoth E gcPrefix calls).2.applyCall (runBoth E gcPrefix calls).1 call) := by
  unfold runBoth
  rw [List.foldl_append]
  rfl

theorem runBoth_fst (calls : List Call) : (runBoth E gcPrefix calls).1 = run gcPrefix calls := by
  induction calls using List.reverseRecOn with
  | nil => rfl
  | append_singleton calls call ih =>
    rw [runBoth_append_singleton, Discovery.run_append_singleton, ih]

theorem runCalls_append_singleton (calls : List Call) (call : Call) :
    runCalls E gcPrefix (calls ++ [call]) =
      (runCalls E gcPrefix calls).applyCall (run gcPrefix calls) call := by
  unfold runCalls
  rw [runBoth_append_singleton, runBoth_fst]

theorem applyCall_deregister_finalDots {bucket : Bucket} {st : Storage E} {d : Discovery}
    {finalDot : UInt64} {failing : List String} :
    (st.applyCall bucket (.deregister d finalDot failing)).finalDots =
      st.finalDots.insert (d.nodeId, finalDot.toNat) := by
  unfold applyCall
  simp only
  split
  · rfl
  · rfl

theorem mem_registrations_runCalls (calls : List Call)
    (h : ∀ call ∈ calls, KeySafe gcPrefix call.caller) :
    id ∈ (runCalls E gcPrefix calls).registrations ↔ id ∈ listLiveNodeIds (run gcPrefix calls) := by
  induction calls using List.reverseRecOn with
  | nil =>
    refine iff_of_false (AList.notMem_empty id) fun hmem => ?_
    obtain ⟨r, hr, -⟩ := mem_listLiveNodeIds_iff_registration.mp hmem
    exact List.not_mem_nil hr
  | append_singleton calls call ih =>
    have hbefore : ∀ c ∈ calls, KeySafe gcPrefix c.caller :=
      fun c hc => h c (List.mem_append_left _ hc)
    have ih := ih hbefore
    have hcall := h call (by simp)
    have horderly : Discovery.Orderly gcPrefix (run gcPrefix calls) :=
      Discovery.orderly_run calls fun c hc => (hbefore c hc).toKeyParses
    rw [runCalls_append_singleton, Discovery.run_append_singleton]
    cases call with
    | register d t =>
      have hd : KeySafe gcPrefix d := hcall
      show id ∈ ((runCalls E gcPrefix calls).register d.nodeId).registrations ↔
        id ∈ listLiveNodeIds (d.register t (run gcPrefix calls))
      rw [mem_register, horderly.listed_register hd, ih]
    | deregister d finalDot failing =>
      have hd : KeySafe gcPrefix d := hcall
      show _ ↔ id ∈ listLiveNodeIds
        (d.deregister gcPrefix finalDot.toNat failing (run gcPrefix calls))
      rw [horderly.listed_deregister hd, ← ih]
      unfold applyCall
      simp only [Bucket.mem_listObjectKeys, and_assoc]
      split
      · next hfails => exact (and_iff_left fun _ => hfails).symm
      · next hfails =>
        show id ∈ (runCalls E gcPrefix calls).registrations.erase d.nodeId ↔ _
        rw [AList.mem_erase]
        constructor
        · rintro ⟨hne, hmem⟩
          exact ⟨hmem, fun hid => absurd hid hne⟩
        · rintro ⟨hmem, himp⟩
          exact ⟨fun hid => hfails (himp hid), hmem⟩

theorem mem_finalDots_runCalls (calls : List Call) {x : NodeId × Nat} :
    x ∈ (runCalls E gcPrefix calls).finalDots ↔ ∃ y ∈ departures calls, x = (y.1, y.2.toNat) := by
  induction calls using List.reverseRecOn with
  | nil =>
    refine iff_of_false List.not_mem_nil ?_
    rintro ⟨y, hy, -⟩
    exact absurd hy List.not_mem_nil
  | append_singleton calls call ih =>
    rw [runCalls_append_singleton]
    cases call with
    | register d t =>
      show x ∈ ((runCalls E gcPrefix calls).register d.nodeId).finalDots ↔ _
      rw [register_finalDots, S3GcStorage.departures_register, ih]
    | deregister d finalDot failing =>
      rw [applyCall_deregister_finalDots, List.mem_insert_iff,
        S3GcStorage.departures_deregister, ih]
      constructor
      · rintro (rfl | ⟨y, hy, rfl⟩)
        · exact ⟨(d.nodeId, finalDot), by simp, rfl⟩
        · exact ⟨y, List.mem_append_left _ hy, rfl⟩
      · rintro ⟨y, hy, rfl⟩
        rcases List.mem_append.mp hy with hy | hy
        · exact Or.inr ⟨y, hy, rfl⟩
        · rw [List.mem_singleton.mp hy]
          exact Or.inl rfl

/-- **The members**: the ids parsed out of the keys are those of the storage. -/
theorem listLiveNodeIds_run (calls : List Call) (h : ∀ call ∈ calls, KeySafe gcPrefix call.caller) :
    listLiveNodeIds (run gcPrefix calls) = (runCalls E gcPrefix calls).liveMembers := by
  have hmem : ∀ id, id ∈ listLiveNodeIds (run gcPrefix calls) ↔
      id ∈ (runCalls E gcPrefix calls).liveMembers := by
    intro id
    rw [mem_liveMembers, mem_registrations_runCalls calls h]
  -- both are sorted and without duplicates
  unfold listLiveNodeIds liveMembers at hmem ⊢
  apply List.Perm.eq_of_pairwise' (r := (· ≤ ·))
  · exact (List.pairwise_insertionSort _ _).sublist (List.dedup_sublist _)
  · exact (List.pairwise_insertionSort _ _).sublist (List.dedup_sublist _)
  · exact (List.perm_ext_iff_of_nodup (List.nodup_dedup _) (List.nodup_dedup _)).mpr hmem

theorem departureKey_mem_run (calls : List Call) (h : ∀ call ∈ calls, KeySafe gcPrefix call.caller)
    {x : NodeId × UInt64} (hx : x ∈ departures calls) :
    SeparableText x.1 ∧ departureKey gcPrefix x ∈ run gcPrefix calls := by
  induction calls using List.reverseRecOn with
  | nil => exact absurd hx List.not_mem_nil
  | append_singleton calls call ih =>
    have ih := ih fun c hc => h c (List.mem_append_left _ hc)
    have hcall := h call (by simp)
    rw [Discovery.run_append_singleton]
    cases call with
    | register d t =>
      rw [S3GcStorage.departures_register] at hx
      obtain ⟨hid, hkey⟩ := ih hx
      exact ⟨hid, Discovery.mem_register.mpr (Or.inl hkey)⟩
    | deregister d finalDot failing =>
      rw [S3GcStorage.departures_deregister] at hx
      have hput : SeparableText x.1 ∧
          (departureKey gcPrefix x = ExperimentalCrdt.finalDotKey gcPrefix d.nodeId finalDot.toNat ∨
            departureKey gcPrefix x ∈ run gcPrefix calls) := by
        rcases List.mem_append.mp hx with hold | hnew
        · exact ⟨(ih hold).1, Or.inr (ih hold).2⟩
        · rw [List.mem_singleton.mp hnew]
          exact ⟨hcall.nodeId_separable, Or.inl rfl⟩
      refine ⟨hput.1, Discovery.mem_deregister.mpr ⟨hput.2, fun _ hown => ?_⟩⟩
      have hapart : startsWith (departureKey gcPrefix x) (registrationKeyPrefix d.nodeId) = false :=
        Discovery.finalDotKey_not_own hput.1 hcall
      rw [hapart] at hown
      exact absurd hown Bool.false_ne_true

theorem parse_listed_iff (calls : List Call) (h : ∀ call ∈ calls, KeySafe gcPrefix call.caller)
    (hslash : ¬ EndsInSlash gcPrefix) {k : String} {e : NodeId × Nat} :
    k ∈ (run gcPrefix calls).listObjectKeys (S3GcStorage.finalDotsKeyPrefix gcPrefix) ∧
        S3GcStorage.parseFinalDotKey gcPrefix k = some e ↔
      ∃ x ∈ (runCalls E gcPrefix calls).finalDots,
        k = ExperimentalCrdt.finalDotKey gcPrefix x.1 x.2 ∧
        parseFinalDotKey x = some e := by
  constructor
  · rintro ⟨hk, he⟩
    rcases S3GcStorage.mem_run calls (Bucket.mem_listObjectKeys.mp hk).1
      with ⟨y, hy, rfl⟩ | ⟨_, _, _, _, rfl⟩
    · refine ⟨(y.1, y.2.toNat), (mem_finalDots_runCalls calls).mpr ⟨y, hy, rfl⟩, rfl, ?_⟩
      rw [← he]
      exact (parse_finalDotKey hslash y.2.toNat_lt).symm
    · rw [parse_registrationKey] at he
      cases he
  · rintro ⟨x, hx, rfl, he⟩
    obtain ⟨y, hy, rfl⟩ := (mem_finalDots_runCalls calls).mp hx
    refine ⟨Bucket.mem_listObjectKeys.mpr ⟨(departureKey_mem_run calls h hy).2, ?_⟩, ?_⟩
    · exact S3GcStorage.startsWith_finalDotsKeyPrefix_iff.mpr hslash
    · rw [parse_finalDotKey hslash y.2.toNat_lt]
      exact he

theorem finalDotKey_le_iff {x y : NodeId × Nat} :
    ExperimentalCrdt.finalDotKey gcPrefix y.1 y.2 ≤ ExperimentalCrdt.finalDotKey gcPrefix x.1 x.2 ↔
      finalDotKey y ≤ finalDotKey x := by
  have htext : ∀ z : NodeId × Nat, (ExperimentalCrdt.finalDotKey gcPrefix z.1 z.2).toList =
      (gcPrefix.toList ++ "/final_dots/".toList) ++ (finalDotKey z).toList := by
    intro z
    rw [toList_finalDotKey, S3GcStorage.finalDotTail_eq]
    unfold finalDotKey
    simp
  rw [String.le_iff_toList_le, String.le_iff_toList_le, htext, htext, append_le_append_iff rfl]
  simp

theorem finalDotKey_inj_right {v w : Nat} (h : finalDotKey (id, v) = finalDotKey (id, w)) :
    v = w := by
  unfold finalDotKey at h
  have hdigits : Nat.toDigits 10 v = Nat.toDigits 10 w := by
    have htext := congrArg String.toList h
    simpa using htext
  rw [← value_toDigits v, hdigits, value_toDigits]

/-- **The final dots**: those parsed out of the keys are those of the storage. -/
theorem lookup_readFinalDots_run (calls : List Call)
    (h : ∀ call ∈ calls, KeySafe gcPrefix call.caller) (hslash : ¬ EndsInSlash gcPrefix)
    (id : NodeId) :
    (S3GcStorage.readFinalDots gcPrefix (run gcPrefix calls)).lookup id =
      (runCalls E gcPrefix calls).readFinalDots.lookup id := by
  have hlisted := fun {k e} => parse_listed_iff (E := E) calls h hslash (k := k) (e := e)
  have hself : ∀ {x e : NodeId × Nat}, parseFinalDotKey x = some e → x = e := by
    intro x e hx
    unfold parseFinalDotKey at hx
    split at hx
    · cases hx
    · exact Option.some.inj hx
  ext v
  unfold S3GcStorage.readFinalDots readFinalDots
  rw [AList.lookup_ofPairs_sorted (f := fun k => k) (Bucket.pairwise_listObjectKeys _ _),
    AList.lookup_ofPairs_sorted (f := finalDotKey) (List.pairwise_insertionSort _ _)]
  · constructor
    · rintro ⟨k, hk, he, hmax⟩
      obtain ⟨x, hx, rfl, hparse⟩ := hlisted.mp ⟨hk, he⟩
      refine ⟨x, (List.mem_insertionSort _).mpr hx, hparse, fun y hy w hw => ?_⟩
      obtain ⟨hk', he'⟩ := hlisted.mpr ⟨y, (List.mem_insertionSort _).mp hy, rfl, hw⟩
      exact finalDotKey_le_iff.mp (hmax _ hk' w he')
    · rintro ⟨x, hx, hparse, hmax⟩
      obtain ⟨hk, he⟩ := hlisted.mpr ⟨x, (List.mem_insertionSort _).mp hx, rfl, hparse⟩
      refine ⟨_, hk, he, fun k' hk' w hw => ?_⟩
      obtain ⟨y, hy, rfl, hparse'⟩ := hlisted.mp ⟨hk', hw⟩
      exact finalDotKey_le_iff.mpr (hmax y ((List.mem_insertionSort _).mpr hy) w hparse')
  · intro x _ y _ v w hv hw hkey
    obtain rfl := hself hv
    obtain rfl := hself hw
    exact finalDotKey_inj_right hkey
  · intro k _ k' _ v w hv hw heq
    obtain rfl : k = k' := heq
    rw [hv] at hw
    exact (Prod.mk.inj (Option.some.inj hw)).2

end Storage

end ExperimentalCrdt
