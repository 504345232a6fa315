import ExperimentalCrdt.Lib.HashMap
import ExperimentalCrdt.Lib.Text
import Mathlib.Data.List.Sort

/-!
# The keys in a bucket

`storage/s3_client.rs`, as far as discovery and final dots need it: all they say is in the keys of
the objects they put, so a bucket is the set of its keys. A listing returns every key under a
prefix, in lexicographic order; the pages it comes in are left out.
-/

namespace ExperimentalCrdt

abbrev Bucket := HashSet String

/-- `str::starts_with`. -/
def startsWith (text start : String) : Bool := start.toList.isPrefixOf text.toList

theorem startsWith_iff {text start : String} : startsWith text start = true ↔
    start.toList <+: text.toList :=
  List.isPrefixOf_iff_prefix

namespace Bucket

def putObject (bucket : Bucket) (key : String) : Bucket := bucket.insert key ()

def deleteObject (bucket : Bucket) (key : String) : Bucket := bucket.erase key

def listObjectKeys (bucket : Bucket) (start : String) : List String :=
  (bucket.keys.filter fun key => startsWith key start).insertionSort fun a b => a ≤ b

variable {bucket : Bucket} {k key start : String}

@[simp] theorem mem_putObject : k ∈ bucket.putObject key ↔ k = key ∨ k ∈ bucket :=
  AList.mem_insert _

@[simp] theorem mem_deleteObject : k ∈ bucket.deleteObject key ↔ k ≠ key ∧ k ∈ bucket :=
  AList.mem_erase

theorem mem_listObjectKeys : k ∈ bucket.listObjectKeys start ↔
    k ∈ bucket ∧ startsWith k start = true := by
  unfold listObjectKeys
  rw [List.mem_insertionSort, List.mem_filter, ← AList.mem_keys]

theorem pairwise_listObjectKeys (bucket : Bucket) (start : String) :
    (bucket.listObjectKeys start).Pairwise (· ≤ ·) :=
  List.pairwise_insertionSort _ _

/-- Delete several objects, one by one; where the delete fails, the object stays. -/
def deleteObjects (bucket : Bucket) (failing keys : List String) : Bucket :=
  keys.foldl (fun bucket key => if key ∈ failing then bucket else bucket.deleteObject key) bucket

theorem mem_deleteObjects (failing keys : List String) (bucket : Bucket) :
    k ∈ bucket.deleteObjects failing keys ↔ k ∈ bucket ∧ (k ∈ keys → k ∈ failing) := by
  induction keys generalizing bucket with
  | nil => simp [deleteObjects]
  | cons key keys ih =>
    show k ∈ Bucket.deleteObjects (if key ∈ failing then bucket else bucket.deleteObject key)
      failing keys ↔ _
    rw [ih, List.mem_cons]
    by_cases hkey : key ∈ failing
    · rw [if_pos hkey]
      refine and_congr_right fun _ => ⟨fun h hk => ?_, fun h hk => h (Or.inr hk)⟩
      rcases hk with rfl | hk
      · exact hkey
      · exact h hk
    · rw [if_neg hkey, mem_deleteObject]
      constructor
      · rintro ⟨⟨hne, hmem⟩, h⟩
        exact ⟨hmem, fun hk => h (hk.resolve_left hne)⟩
      · rintro ⟨hmem, h⟩
        refine ⟨⟨?_, hmem⟩, fun hk => h (Or.inr hk)⟩
        rintro rfl
        exact hkey (h (Or.inl rfl))

end Bucket

end ExperimentalCrdt
