import ExperimentalCrdt.Gc.FinalDotKeys
import ExperimentalCrdt.Lib.History

/-!
# Repeated departures

Final-dot objects are not deleted when a node comes back, so a node that departs several times
leaves several, and `read_final_dots` keeps the one whose key is listed last. The listing is in the
order of the texts, and the counters stand in the texts as decimal numbers: a counter with more
digits is listed before an older one that is above its leading digits (`latest_departure_wins_iff`).
-/

namespace ExperimentalCrdt

open History (Since since_append_singleton)
open Text (decimalLength append_le_append_iff decimal_append_le_iff
  prefix_of_prefix_append_of_notMem mem_of_parseI64 three_le_length_splitOn)
open Discovery (Call run)

namespace S3GcStorage

/-- The departures among the calls, as the node and its final counter. -/
def departures (calls : List Call) : List (NodeId × UInt64) :=
  calls.filterMap fun call =>
    match call with
    | .register _ _ => none
    | .deregister d finalDot _ => some (d.nodeId, finalDot)

def departureKey (gcPrefix : String) (departure : NodeId × UInt64) : String :=
  finalDotKey gcPrefix departure.1 departure.2.toNat

/-- The key of the departure parses to what it was made of. -/
def Parses (gcPrefix : String) (departure : NodeId × UInt64) : Prop :=
  parseFinalDotKey gcPrefix (departureKey gcPrefix departure) =
    some (departure.1, departure.2.toNat)

/-- The object of the departure was put, and no later call deleted it. -/
def Kept (gcPrefix : String) (calls : List Call) (departure : NodeId × UInt64) : Prop :=
  ∃ d failing, d.nodeId = departure.1 ∧
    Since (Call.Deletes (departureKey gcPrefix departure)) calls (.deregister d departure.2 failing)

instance (gcPrefix : String) (departure : NodeId × UInt64) :
    Decidable (Parses gcPrefix departure) :=
  inferInstanceAs (Decidable (_ = _))

variable {gcPrefix : String} {calls : List Call} {x y : NodeId × UInt64}

/-! ## Which keys parse -/

theorem toList_finalDotsKeyPrefix_concat (gcPrefix : String) :
    (finalDotsKeyPrefix gcPrefix).toList = (trimEndMatches gcPrefix).toList ++
      "/final_dots".toList ++ ['/'] := by
  rw [toList_finalDotsKeyPrefix, List.append_assoc]
  rfl

theorem parseFinalDotKey_eq_some {key : String} {e : NodeId × Nat}
    (h : parseFinalDotKey gcPrefix key = some e) :
    startsWith key (finalDotsKeyPrefix gcPrefix) = true ∧
      ∃ raw, key.toList = (finalDotsKeyPrefix gcPrefix).toList ++ raw ++ ".json".toList ∧
        (raw.splitOn '_').length = 2 := by
  unfold parseFinalDotKey at h
  simp only [← finalDotsKeyPrefix_eq] at h
  split at h
  · next hkey =>
    obtain ⟨hstart, hend⟩ := Bool.and_eq_true_iff.mp hkey
    refine ⟨hstart, ?_⟩
    obtain ⟨stem, hstem⟩ := List.isSuffixOf_iff_suffix.mp hend
    have hslash : '/' ∉ ".json".toList := by decide
    have hbefore : (finalDotsKeyPrefix gcPrefix).toList <+: stem := by
      rw [toList_finalDotsKeyPrefix_concat]
      refine prefix_of_prefix_append_of_notMem hslash ?_
      rw [hstem, ← toList_finalDotsKeyPrefix_concat]
      exact startsWith_iff.mp hstart
    obtain ⟨raw, rfl⟩ := hbefore
    refine ⟨raw, hstem.symm, ?_⟩
    rw [← hstem, List.length_append, Nat.add_sub_cancel, List.take_left, List.drop_left] at h
    split at h
    · next hparts =>
      rw [hparts]
      rfl
    · cases h
  · cases h

theorem parses_iff : Parses gcPrefix x ↔ ¬ EndsInSlash gcPrefix ∧ '_' ∉ x.1.toList := by
  have hdot : x.2.toNat < 2 ^ 64 := x.2.toNat_lt
  unfold Parses departureKey
  constructor
  · intro h
    have hslash := startsWith_finalDotsKeyPrefix_iff.mp (parseFinalDotKey_eq_some h).1
    refine ⟨hslash, fun hid => ?_⟩
    rw [parse_finalDotKey hslash hdot, Storage.parseFinalDotKey, if_pos hid] at h
    cases h
  · rintro ⟨hslash, hid⟩
    rw [parse_finalDotKey hslash hdot, Storage.parseFinalDotKey, if_neg hid]

theorem Parses.departureKey_inj (hx : Parses gcPrefix x) (hy : Parses gcPrefix y)
    (h : departureKey gcPrefix x = departureKey gcPrefix y) : x = y := by
  unfold Parses at hx hy
  rw [h, hy] at hx
  obtain ⟨hid, hdot⟩ := Prod.mk.inj (Option.some.inj hx)
  exact (Prod.ext hid (UInt64.toNat_inj.mp hdot)).symm

theorem parse_registrationKey (nodeId : NodeId) (expiresAt : DateTime) (gcReplica : Bool)
    (addr : String) :
    parseFinalDotKey gcPrefix (registrationKey nodeId expiresAt gcReplica addr) = none := by
  -- behind the last slash there are two underscores in a row, so the key splits into three parts
  by_contra hsome
  obtain ⟨e, he⟩ := Option.ne_none_iff_exists'.mp hsome
  obtain ⟨-, raw, hkey, hparts⟩ := parseFinalDotKey_eq_some he
  obtain ⟨front, hfront⟩ := keyText_last nodeId.toList (markerOf gcReplica) addr.toList
    (toString expiresAt.timestampMillis).toList
  rw [toList_registrationKey, hfront] at hkey
  have hraw := List.append_cancel_right hkey
  have hslash : '/' ∉ "__".toList ++ (toString expiresAt.timestampMillis).toList := by
    intro hmem
    rcases List.mem_append.mp hmem with hmem | hmem
    · exact absurd hmem (by decide)
    · exact absurd (mem_of_parseI64 (parseI64_timestampMillis expiresAt) hmem) (by decide)
  have hbefore : (finalDotsKeyPrefix gcPrefix).toList <+: front := by
    rw [toList_finalDotsKeyPrefix_concat]
    refine prefix_of_prefix_append_of_notMem hslash ?_
    rw [hraw, ← toList_finalDotsKeyPrefix_concat]
    exact List.prefix_append _ _
  obtain ⟨z, rfl⟩ := hbefore
  rw [List.append_assoc] at hraw
  obtain rfl := List.append_cancel_left hraw
  have hlength :
      3 ≤ ((z ++ ("__".toList ++ (toString expiresAt.timestampMillis).toList)).splitOn
        '_').length :=
    three_le_length_splitOn '_' z [] _
  omega

/-! ## Which final dots are in the bucket -/

theorem departures_register (calls : List Call) (d : Discovery) (expiresAt : DateTime) :
    departures (calls ++ [.register d expiresAt]) = departures calls := by
  unfold departures
  rw [List.filterMap_append]
  exact List.append_nil _

theorem departures_deregister (calls : List Call) (d : Discovery) (finalDot : UInt64)
    (failing : List String) :
    departures (calls ++ [.deregister d finalDot failing]) =
      departures calls ++ [(d.nodeId, finalDot)] := by
  unfold departures
  rw [List.filterMap_append]
  rfl

theorem kept_register (calls : List Call) (d : Discovery) (expiresAt : DateTime) :
    Kept gcPrefix (calls ++ [.register d expiresAt]) x ↔ Kept gcPrefix calls x := by
  unfold Kept
  simp only [since_append_singleton]
  constructor
  · rintro ⟨d', failing, hid, heq | ⟨-, hsince⟩⟩
    · cases heq
    · exact ⟨d', failing, hid, hsince⟩
  · rintro ⟨d', failing, hid, hsince⟩
    exact ⟨d', failing, hid, Or.inr ⟨fun hdeletes => hdeletes, hsince⟩⟩

theorem kept_deregister (calls : List Call) (d : Discovery) (finalDot : UInt64)
    (failing : List String) :
    Kept gcPrefix (calls ++ [.deregister d finalDot failing]) x ↔ x = (d.nodeId, finalDot) ∨
      ¬ (Call.deregister d finalDot failing).Deletes (departureKey gcPrefix x) ∧
      Kept gcPrefix calls x := by
  unfold Kept
  simp only [since_append_singleton]
  constructor
  · rintro ⟨d', failing', hid, heq | ⟨hkept, hsince⟩⟩
    · obtain ⟨rfl, hdot, rfl⟩ := Call.deregister.inj heq
      exact Or.inl (Prod.ext hid.symm hdot)
    · exact Or.inr ⟨hkept, d', failing', hid, hsince⟩
  · rintro (rfl | ⟨hkept, d', failing', hid, hsince⟩)
    · exact ⟨d, failing, rfl, Or.inl rfl⟩
    · exact ⟨d', failing', hid, Or.inr ⟨hkept, hsince⟩⟩

theorem Kept.mem_departures (h : Kept gcPrefix calls x) : x ∈ departures calls := by
  obtain ⟨d, failing, hid, hsince⟩ := h
  refine List.mem_filterMap.mpr ⟨_, hsince.mem, ?_⟩
  exact congrArg some (Prod.ext hid rfl)

theorem mem_run (calls : List Call) {k : String} (h : k ∈ run gcPrefix calls) :
    (∃ x ∈ departures calls, k = departureKey gcPrefix x) ∨
      ∃ nodeId expiresAt gcReplica addr, k = registrationKey nodeId expiresAt gcReplica addr := by
  induction calls using List.reverseRecOn with
  | nil => exact absurd h (AList.notMem_empty _)
  | append_singleton calls call ih =>
    rw [Discovery.run_append_singleton] at h
    cases call with
    | register d expiresAt =>
      rw [departures_register]
      rcases Discovery.mem_register.mp h with hold | ⟨hnew, -⟩
      · exact ih hold
      · exact Or.inr ⟨_, _, _, _, hnew⟩
    | deregister d finalDot failing =>
      rw [departures_deregister]
      rcases (Discovery.mem_deregister.mp h).1 with hnew | hold
      · exact Or.inl ⟨(d.nodeId, finalDot), by simp, hnew⟩
      · rcases ih hold with ⟨x, hx, hkey⟩ | hreg
        · exact Or.inl ⟨x, List.mem_append_left _ hx, hkey⟩
        · exact Or.inr hreg

theorem departureKey_mem_run_iff (calls : List Call)
    (hparse : ∀ x ∈ departures calls, Parses gcPrefix x)
    (hincreasing : (departures calls).Pairwise fun x y => x.1 = y.1 → x.2 < y.2)
    (hx : Parses gcPrefix x) :
    departureKey gcPrefix x ∈ run gcPrefix calls ↔ Kept gcPrefix calls x := by
  induction calls using List.reverseRecOn with
  | nil =>
    refine iff_of_false (AList.notMem_empty _) ?_
    rintro ⟨_, _, -, hsince⟩
    exact History.not_since_nil hsince
  | append_singleton calls call ih =>
    rw [Discovery.run_append_singleton]
    cases call with
    | register d expiresAt =>
      rw [departures_register] at hparse hincreasing
      rw [kept_register, ← ih hparse hincreasing]
      show _ ∈ d.register expiresAt (run gcPrefix calls) ↔ _
      rw [Discovery.mem_register]
      refine or_iff_left fun hnew => ?_
      unfold Parses at hx
      rw [hnew.1, parse_registrationKey] at hx
      cases hx
    | deregister d finalDot failing =>
      rw [departures_deregister] at hparse hincreasing
      obtain ⟨hbefore, -, hlast⟩ := List.pairwise_append.mp hincreasing
      have hd : Parses gcPrefix (d.nodeId, finalDot) := hparse _ (by simp)
      have ih := ih (fun y hy => hparse y (List.mem_append_left _ hy)) hbefore
      -- the own key is new, so it is not among the keys to delete
      have hfresh : x = (d.nodeId, finalDot) → departureKey gcPrefix x ∉ run gcPrefix calls := by
        rintro rfl hmem
        have hlt := hlast _ (ih.mp hmem).mem_departures _ List.mem_cons_self rfl
        exact UInt64.lt_irrefl _ hlt
      have hown : departureKey gcPrefix x = finalDotKey gcPrefix d.nodeId finalDot.toNat ↔
          x = (d.nodeId, finalDot) :=
        ⟨fun h => hx.departureKey_inj hd h, fun h => h ▸ rfl⟩
      show _ ∈ d.deregister gcPrefix finalDot.toNat failing (run gcPrefix calls) ↔ _
      rw [Discovery.mem_deregister, kept_deregister, hown, ← ih]
      unfold Call.Deletes
      by_cases hmem : departureKey gcPrefix x ∈ run gcPrefix calls
      · have hne : x ≠ (d.nodeId, finalDot) := fun h => hfresh h hmem
        simp [hmem, hne]
      · simp [hmem]

theorem departureKey_le_iff (hid : y.1 = x.1) (hle : y.2.toNat ≤ x.2.toNat) :
    departureKey gcPrefix y ≤ departureKey gcPrefix x ↔
      y.2.toNat ≤ x.2.toNat / 10 ^ (decimalLength x.2.toNat - decimalLength y.2.toNat) := by
  have htext : ∀ z : NodeId × UInt64, (departureKey gcPrefix z).toList =
      gcPrefix.toList ++ "/final_dots/".toList ++
      z.1.toList ++ "_".toList ++ (Nat.toDigits 10 z.2.toNat ++ '.' :: "json".toList) := by
    intro z
    unfold departureKey
    rw [toList_finalDotKey, finalDotTail_eq]
    simp
  rw [String.le_iff_toList_le, htext, htext, hid, append_le_append_iff rfl,
    decimal_append_le_iff hle (by decide)]
  simp

theorem lookup_readFinalDots_iff (hparse : ∀ x ∈ departures calls, Parses gcPrefix x)
    (hincreasing : (departures calls).Pairwise fun x y => x.1 = y.1 → x.2 < y.2)
    (hx : Parses gcPrefix x) :
    (readFinalDots gcPrefix (run gcPrefix calls)).lookup x.1 = some x.2.toNat ↔
      Kept gcPrefix calls x ∧
        ∀ y, Kept gcPrefix calls y → y.1 = x.1 →
          departureKey gcPrefix y ≤ departureKey gcPrefix x := by
  have hslash := (parses_iff.mp hx).1
  -- what the listed keys parse to
  have hlisted : ∀ k ∈ (run gcPrefix calls).listObjectKeys (finalDotsKeyPrefix gcPrefix), ∀ e,
      parseFinalDotKey gcPrefix k = some e →
        ∃ y ∈ departures calls, k = departureKey gcPrefix y ∧ e = (y.1, y.2.toNat) := by
    intro k hk e he
    rcases mem_run calls (Bucket.mem_listObjectKeys.mp hk).1 with ⟨y, hy, rfl⟩ | ⟨_, _, _, _, rfl⟩
    · rw [hparse y hy] at he
      exact ⟨y, hy, rfl, (Option.some.inj he).symm⟩
    · rw [parse_registrationKey] at he
      cases he
  have hleft : ∀ y, Parses gcPrefix y →
      (departureKey gcPrefix y ∈ (run gcPrefix calls).listObjectKeys (finalDotsKeyPrefix gcPrefix) ↔
        Kept gcPrefix calls y) := by
    intro y hy
    rw [Bucket.mem_listObjectKeys, departureKey_mem_run_iff calls hparse hincreasing hy]
    exact and_iff_left (startsWith_finalDotsKeyPrefix_iff.mpr hslash)
  unfold readFinalDots
  rw [AList.lookup_ofPairs_sorted (f := id) (Bucket.pairwise_listObjectKeys _ _)]
  · constructor
    · rintro ⟨k, hk, he, hmax⟩
      obtain ⟨y, hy, rfl, hxy⟩ := hlisted k hk _ he
      obtain ⟨hid, hdot⟩ := Prod.mk.inj hxy
      obtain rfl : x = y := Prod.ext hid (UInt64.toNat_inj.mp hdot)
      refine ⟨(hleft x hx).mp hk, fun z hz hzid => ?_⟩
      have hz' := hparse z hz.mem_departures
      have hzparse : parseFinalDotKey gcPrefix (departureKey gcPrefix z) =
          some (x.1, z.2.toNat) := by
        rw [hz', hzid]
      exact hmax _ ((hleft z hz').mpr hz) _ hzparse
    · rintro ⟨hx', hmax⟩
      refine ⟨departureKey gcPrefix x, (hleft x hx).mpr hx', hx, fun k hk w hw => ?_⟩
      obtain ⟨y, hy, rfl, hyw⟩ := hlisted k hk _ hw
      exact hmax y ((hleft y (hparse y hy)).mp hk) (Prod.mk.inj hyw).1.symm
  · intro k _ k' _ v w hv hw heq
    obtain rfl : k = k' := heq
    rw [hv] at hw
    exact (Prod.mk.inj (Option.some.inj hw)).2

/-- **When the latest departure wins**: exactly if no later departure deletes its object and every
older object of the node that is left has a counter up to the leading digits, as many as its own, of
the latest one. -/
theorem latest_departure_wins_iff (gcPrefix : String) (calls : List Call)
    (hparse : ∀ x ∈ departures calls, Parses gcPrefix x)
    (hincreasing : (departures calls).Pairwise fun x y => x.1 = y.1 → x.2 < y.2) :
    (∀ x, Since (fun y => y.1 = x.1) (departures calls) x →
        (readFinalDots gcPrefix (run gcPrefix calls)).lookup x.1 = some x.2.toNat) ↔
      ∀ x, Since (fun y => y.1 = x.1) (departures calls) x →
        Kept gcPrefix calls x ∧
          ∀ y, Kept gcPrefix calls y → y.1 = x.1 →
            y.2.toNat ≤ x.2.toNat / 10 ^ (decimalLength x.2.toNat - decimalLength y.2.toNat) := by
  refine forall_congr' fun x => ?_
  refine imp_congr_right fun hlatest => ?_
  rw [lookup_readFinalDots_iff hparse hincreasing (hparse x hlatest.mem)]
  refine and_congr_right fun _ => ?_
  refine forall_congr' fun y => ?_
  refine imp_congr_right fun hy => ?_
  refine imp_congr_right fun hid => ?_
  have hle : y.2.toNat ≤ x.2.toNat := by
    rcases hlatest.rel_of_pairwise hincreasing hy.mem_departures hid with rfl | hlt
    · exact le_rfl
    · exact le_of_lt (UInt64.lt_iff_toNat_lt.mp (hlt hid))
  exact departureKey_le_iff hid hle

/-- Ten departs after two, and two is read: its key is listed last. -/
theorem latest_departure_wins_tenAfterTwo :
    ∃ P : Discovery, P.nodeId = "P" ∧
      let calls : List Call := [.deregister P 2 [], .deregister P 10 []]
      (∀ x ∈ departures calls, Parses "gc" x) ∧
        ((departures calls).Pairwise fun x y => x.1 = y.1 → x.2 < y.2) ∧
        Since (fun y => y.1 = "P") (departures calls) ("P", 10) ∧
        (readFinalDots "gc" (run "gc" calls)).lookup "P" = some 2 := by
  refine ⟨⟨"P", "host", "1", true⟩, rfl, ?_, ?_, ?_, ?_⟩
  · decide +kernel
  · decide
  · exact ⟨[("P", 2)], [], rfl, by simp⟩
  · decide +kernel

/-- Nine departs after two, and nine is read. -/
theorem latest_departure_wins_nineAfterTwo :
    let P : Discovery := ⟨"P", "host", "1", true⟩
    (readFinalDots "gc" (run "gc" [.deregister P 2 [], .deregister P 9 []])).lookup "P" =
        some 9 := by
  intro P
  have hall : ∀ x ∈ departures [.deregister P 2 [], .deregister P 9 []], x = ("P", 2) ∨
    x = ("P", 9) := by decide
  refine (latest_departure_wins_iff "gc" [.deregister P 2 [], .deregister P 9 []]
    (by decide +kernel) (by decide)).mpr ?_
    ("P", 9) ⟨[("P", 2)], [], rfl, by simp⟩
  intro x hx
  obtain rfl : x = ("P", 9) := by
    rcases hall x hx.mem with rfl | rfl
    · rcases (since_append_singleton (l := [("P", 2)]) (a := ("P", 9))).mp hx with heq | ⟨hne, -⟩
      · exact absurd heq (by decide)
      · exact absurd rfl hne
    · rfl
  refine ⟨⟨P, [], rfl, [.deregister P 2 []], [], rfl, by simp⟩, fun y hy _ => ?_⟩
  rcases hall y hy.mem_departures with rfl | rfl
  · decide
  · decide

end S3GcStorage

end ExperimentalCrdt
