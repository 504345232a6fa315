import ExperimentalCrdt.Gc.Storage
import ExperimentalCrdt.Peers.Discovery
import Mathlib.Data.List.DropRight

/-!
# The keys of final dots

A departing node puts an object whose key ends in its id and its final counter (`finalDotKey`, from
`peers/discovery.rs`); `gc/storage.rs` lists these keys and splits them again. The two sides treat
the configured prefix differently, and the id is split where it has an underscore of its own
(`finalDot_round_trip_iff`). Old objects stay, and of several of one node the last in key order
counts, which is the latest only as long as the text of the counters grows with them
(`latest_departure_wins_iff`).

`Gc/Storage.lean` has the final dots as pairs; `Gc/StoredKeys.lean` connects the keys with them.
-/

namespace ExperimentalCrdt

open Text (parseU64 parseU64_toDigits three_le_length_splitOn)

/-- `str::ends_with`. -/
def endsWith (text suffix : String) : Bool := suffix.toList.isSuffixOf text.toList

namespace S3GcStorage

/-- The configured prefix without slashes at its end. -/
def trimEndMatches (gcPrefix : String) : String := .ofList (gcPrefix.toList.rdropWhile (· = '/'))

def key (gcPrefix ns suffix : String) : String := trimEndMatches gcPrefix ++ "/" ++ ns ++ suffix

def finalDotsKeyPrefix (gcPrefix : String) : String := key gcPrefix "final_dots" "/"

def parseFinalDotKey (gcPrefix key : String) : Option (NodeId × Nat) :=
  let start := trimEndMatches gcPrefix ++ "/final_dots/"
  if startsWith key start && endsWith key ".json" then
    let raw := (key.toList.take (key.toList.length - ".json".toList.length)).drop
      start.toList.length
    match raw.splitOn '_' with
    | [nodeId, counter] => (parseU64 counter).map fun counter => (.ofList nodeId, counter)
    | _ => none
  else none

def readFinalDots (gcPrefix : String) (bucket : Bucket) : HashMap NodeId Nat :=
  AList.ofPairs ((bucket.listObjectKeys (finalDotsKeyPrefix gcPrefix)).filterMap
    (parseFinalDotKey gcPrefix))

/-! ## Keys under the listed prefix -/

/-- The prefix is written as it is and listed without the slashes at its end. -/
def EndsInSlash (gcPrefix : String) : Prop := gcPrefix.toList.getLast? = some '/'

instance (gcPrefix : String) : Decidable (EndsInSlash gcPrefix) :=
  inferInstanceAs (Decidable (_ = _))

variable {gcPrefix : String} {nodeId : NodeId} {finalDot : Nat}

theorem trimEndMatches_eq_self (h : ¬ EndsInSlash gcPrefix) :
    trimEndMatches gcPrefix = gcPrefix := by
  unfold trimEndMatches
  rw [List.rdropWhile_eq_self_iff.mpr, String.ofList_toList]
  intro hne hlast
  apply h
  unfold EndsInSlash
  rw [List.getLast?_eq_some_getLast hne, of_decide_eq_true hlast]

theorem finalDotsKeyPrefix_eq (gcPrefix : String) :
    finalDotsKeyPrefix gcPrefix = trimEndMatches gcPrefix ++ "/final_dots/" := by
  unfold finalDotsKeyPrefix key
  rw [String.append_assoc, String.append_assoc]
  rfl

theorem toList_finalDotsKeyPrefix (gcPrefix : String) :
    (finalDotsKeyPrefix gcPrefix).toList = (trimEndMatches gcPrefix).toList ++
      "/final_dots/".toList := by
  rw [finalDotsKeyPrefix_eq, String.toList_append]

theorem finalDotTail_eq : '/' :: finalDotTail nodeId finalDot =
    "/final_dots/".toList ++ (nodeId.toList ++ '_' :: Nat.toDigits 10 finalDot) ++
      ".json".toList := by
  unfold finalDotTail
  simp

theorem trimEndMatches_append (gcPrefix : String) :
    ∃ slashes, gcPrefix.toList = (trimEndMatches gcPrefix).toList ++ slashes ∧
    ∀ c ∈ slashes, c = '/' := by
  refine ⟨gcPrefix.toList.rtakeWhile (· = '/'), ?_, ?_⟩
  · unfold trimEndMatches List.rdropWhile List.rtakeWhile
    rw [String.toList_ofList, ← List.reverse_append, List.takeWhile_append_dropWhile,
      List.reverse_reverse]
  · intro c hc
    have h := List.mem_rtakeWhile_imp hc
    exact of_decide_eq_true h

theorem trimEndMatches_last (gcPrefix : String) :
    (trimEndMatches gcPrefix).toList.getLast? ≠ some '/' := by
  unfold trimEndMatches
  rw [String.toList_ofList]
  intro h
  obtain ⟨hne, hlast⟩ := List.mem_getLast?_eq_getLast h
  apply List.rdropWhile_last_not _ _ hne
  rw [← hlast]
  decide

theorem startsWith_finalDotsKeyPrefix_iff :
    startsWith (finalDotKey gcPrefix nodeId finalDot) (finalDotsKeyPrefix gcPrefix) = true ↔
      ¬ EndsInSlash gcPrefix := by
  -- a slash at the end of the prefix keeps the object out of the listing
  rw [startsWith_iff, toList_finalDotKey, toList_finalDotsKeyPrefix, finalDotTail_eq]
  constructor
  · intro h hslash
    unfold EndsInSlash at hslash
    obtain ⟨slashes, hsplit, hall⟩ := trimEndMatches_append gcPrefix
    rw [hsplit, List.append_assoc, List.append_assoc, List.prefix_append_right_inj] at h
    cases slashes with
    | nil =>
      refine trimEndMatches_last gcPrefix ?_
      rw [hsplit, List.append_nil] at hslash
      exact hslash
    | cons c slashes =>
      obtain rfl := hall c List.mem_cons_self
      -- behind the first slash the listed keys go on with the path, this one with a slash
      have hnext := (List.cons_prefix_cons.mp h).2
      cases slashes with
      | nil => exact absurd (List.cons_prefix_cons.mp hnext).1 (by decide)
      | cons c slashes =>
        obtain rfl := hall c (by simp)
        exact absurd (List.cons_prefix_cons.mp hnext).1 (by decide)
  · intro h
    rw [trimEndMatches_eq_self h, List.prefix_append_right_inj, List.append_assoc]
    exact List.prefix_append _ _

/-! ## Round trips -/

theorem endsWith_finalDotKey : endsWith (finalDotKey gcPrefix nodeId finalDot) ".json" = true := by
  unfold endsWith
  rw [List.isSuffixOf_iff_suffix, toList_finalDotKey, finalDotTail_eq, ← List.append_assoc]
  exact List.suffix_append _ _

theorem splitOn_finalDot (h : '_' ∉ nodeId.toList) :
    (nodeId.toList ++ '_' :: Nat.toDigits 10 finalDot).splitOn '_' =
      [nodeId.toList, Nat.toDigits 10 finalDot] := by
  rw [List.splitOn_append_cons_self, List.splitOn_eq_singleton h,
    List.splitOn_eq_singleton Nat.underscore_not_in_toDigits]
  rfl

theorem splitOn_finalDot_of_underscore (finalDot : Nat) (h : '_' ∈ nodeId.toList) :
    3 ≤ ((nodeId.toList ++ '_' :: Nat.toDigits 10 finalDot).splitOn '_').length := by
  obtain ⟨front, back, hsplit⟩ := List.append_of_mem h
  rw [hsplit, List.append_assoc, List.cons_append]
  exact three_le_length_splitOn '_' front back _

theorem parse_finalDotKey (h : ¬ EndsInSlash gcPrefix) (hdot : finalDot < 2 ^ 64) :
    parseFinalDotKey gcPrefix (finalDotKey gcPrefix nodeId finalDot) =
      Storage.parseFinalDotKey (nodeId, finalDot) := by
  have hlisted : startsWith (finalDotKey gcPrefix nodeId finalDot)
      (finalDotsKeyPrefix gcPrefix) = true :=
    startsWith_finalDotsKeyPrefix_iff.mpr h
  have hraw : ((finalDotKey gcPrefix nodeId finalDot).toList.take
      ((finalDotKey gcPrefix nodeId finalDot).toList.length - ".json".toList.length)).drop
        (finalDotsKeyPrefix gcPrefix).toList.length =
            nodeId.toList ++ '_' :: Nat.toDigits 10 finalDot := by
    rw [toList_finalDotKey, finalDotTail_eq, ← List.append_assoc, List.length_append,
      Nat.add_sub_cancel,
      List.take_left, toList_finalDotsKeyPrefix, trimEndMatches_eq_self h,
        ← List.append_assoc, List.drop_left]
  unfold parseFinalDotKey Storage.parseFinalDotKey
  simp only [← finalDotsKeyPrefix_eq, hlisted, endsWith_finalDotKey, Bool.and_self, if_true, hraw]
  by_cases hid : '_' ∈ nodeId.toList
  · rw [if_pos hid]
    have hlength := splitOn_finalDot_of_underscore finalDot hid
    split
    · next hparts =>
      rw [hparts] at hlength
      simp at hlength
    · rfl
  · rw [if_neg hid, splitOn_finalDot hid]
    simp only [parseU64_toDigits hdot, Option.map_some, String.ofList_toList]

/-- **When a final dot round-trips**: what `deregister` stores is listed and parses to the node and
its counter exactly if the configured prefix does not end in a slash and the id of the node has no
underscore. -/
theorem finalDot_round_trip_iff (gcPrefix : String) (d : Discovery) (finalDot : UInt64) :
    (∀ failing bucket, finalDotKey gcPrefix d.nodeId finalDot.toNat ∈
        d.deregister gcPrefix finalDot.toNat failing bucket →
      finalDotKey gcPrefix d.nodeId finalDot.toNat ∈
          (d.deregister gcPrefix finalDot.toNat failing bucket).listObjectKeys
            (finalDotsKeyPrefix gcPrefix) ∧
        parseFinalDotKey gcPrefix (finalDotKey gcPrefix d.nodeId finalDot.toNat) =
          some (d.nodeId, finalDot.toNat)) ↔
      ¬ EndsInSlash gcPrefix ∧ '_' ∉ d.nodeId.toList := by
  have hdot : finalDot.toNat < 2 ^ 64 := finalDot.toNat_lt
  have hlisted : startsWith (finalDotKey gcPrefix d.nodeId finalDot.toNat)
      (finalDotsKeyPrefix gcPrefix) = true ↔
      ¬ EndsInSlash gcPrefix := startsWith_finalDotsKeyPrefix_iff
  constructor
  · intro h
    have hput : finalDotKey gcPrefix d.nodeId finalDot.toNat ∈
        d.deregister gcPrefix finalDot.toNat [] ∅ :=
      Discovery.mem_deregister.mpr ⟨Or.inl rfl, fun hold => absurd hold (AList.notMem_empty _)⟩
    obtain ⟨hmem, hparse⟩ := h [] ∅ hput
    have hslash := hlisted.mp (Bucket.mem_listObjectKeys.mp hmem).2
    refine ⟨hslash, fun hid => ?_⟩
    rw [parse_finalDotKey hslash hdot, Storage.parseFinalDotKey, if_pos hid] at hparse
    cases hparse
  · rintro ⟨hslash, hid⟩ failing bucket hput
    refine ⟨Bucket.mem_listObjectKeys.mpr ⟨hput, hlisted.mpr hslash⟩, ?_⟩
    rw [parse_finalDotKey hslash hdot, Storage.parseFinalDotKey, if_neg hid]

/-- With a slash at the end of the prefix the object is stored and not listed. -/
theorem finalDot_round_trip_trailingSlash :
    ∃ d : Discovery, d.nodeId = "P" ∧
      finalDotKey "gc/" d.nodeId 1 ∈ d.deregister "gc/" 1 [] ∅ ∧
      finalDotKey "gc/" d.nodeId 1 ∉ (d.deregister "gc/" 1 [] ∅).listObjectKeys
        (finalDotsKeyPrefix "gc/") := by
  refine ⟨⟨"P", "host", "1", true⟩, rfl, ?_, ?_⟩
  · exact Discovery.mem_deregister.mpr ⟨Or.inl rfl, fun hold => absurd hold (AList.notMem_empty _)⟩
  · rw [Bucket.mem_listObjectKeys, startsWith_finalDotsKeyPrefix_iff]
    decide

end S3GcStorage

end ExperimentalCrdt
