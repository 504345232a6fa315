import ExperimentalCrdt.LogicalClocks.DotVersionVector
import ExperimentalCrdt.Storage.S3Client

/-!
# Discovery through the bucket

`peers/discovery.rs`: a node registers by putting an object whose key spells its id, its role, its
address and an expiry, separated by `__`; the others list the keys and split them again. The bodies
of the objects are not read.

A key says what was put into it exactly if neither the id nor the address brings a separator along:
`parseRegistrationKey_eq_ok_iff` describes the keys that parse, and what they parse to.
`startsWith_registrationKey_iff` says which keys a node takes for its own.
-/

namespace ExperimentalCrdt

open Text (splitN Separable parseI64 parseI64_toString mem_of_parseI64
  dropPrefix?_iff dropSuffix?_iff
  splitN_eq_cons_cons_iff infix_append_cons prefix_of_prefix_append toDigits_cons
    isDigit_of_mem_toDigits)

/-- `chrono::DateTime<Utc>` by its `timestamp_millis`, in the range that chrono supports. -/
structure DateTime where
  timestampMillis : Int
  supported : -8334601228800000 ≤ timestampMillis ∧ timestampMillis ≤ 8210266876799999
deriving DecidableEq

def DateTime.fromTimestampMillis (millis : Int) : Option DateTime :=
  if h : -8334601228800000 ≤ millis ∧ millis ≤ 8210266876799999 then some ⟨millis, h⟩ else none

structure NodeRegistration where
  nodeId : NodeId
  nodeName : String
  addr : String
  gcReplica : Bool
  expiresAt : DateTime
deriving DecidableEq

def DISCOVERY_NODES_PREFIX : String := "nodes/"

def FINAL_DOTS_PREFIX : String := "final_dots/"

def registrationKey (nodeId : NodeId) (expiresAt : DateTime) (gcReplica : Bool) (addr : String) :
    String :=
  DISCOVERY_NODES_PREFIX ++ nodeId ++ "__" ++ (if gcReplica then "1" else "0") ++
    "__" ++ addr ++ "__" ++
    toString expiresAt.timestampMillis ++ ".json"

def registrationKeyPrefix (nodeId : NodeId) : String := DISCOVERY_NODES_PREFIX ++ nodeId ++ "__"

/-- Why a key does not parse. The source carries these as texts, which it logs. -/
inductive RegistrationKeyError where
  | invalidPrefix
  | invalidSuffix
  | missingNodeId
  | missingGcReplica
  | invalidGcReplica (marker : String)
  | missingSocketAddress
  | missingTtl
  | unparsedTtl
  | invalidTtl
deriving DecidableEq

def parseGcReplica : List Char → Except RegistrationKeyError Bool
  | ['1'] => .ok true
  | ['0'] => .ok false
  | other => .error (.invalidGcReplica (.ofList other))

def parseExpiresAt (ttl : List Char) : Except RegistrationKeyError DateTime :=
  match parseI64 ttl with
  | none => .error .unparsedTtl
  | some millis =>
    match DateTime.fromTimestampMillis millis with
    | none => .error .invalidTtl
    | some expiresAt => .ok expiresAt

/-- The parts of a key after its id. -/
def parseParts (nodeId : List Char) : List (List Char) →
    Except RegistrationKeyError NodeRegistration
  | [] => .error .missingGcReplica
  | marker :: parts => do
    let gcReplica ← parseGcReplica marker
    match parts with
    | [] => .error .missingSocketAddress
    | [_] => .error .missingTtl
    | addr :: ttl :: _ => do
      let expiresAt ← parseExpiresAt ttl
      .ok { nodeId := .ofList nodeId, nodeName := .ofList nodeId, addr := .ofList addr,
            gcReplica, expiresAt }

def parseRegistrationKey (key : String) : Except RegistrationKeyError NodeRegistration :=
  match key.toList.dropPrefix? DISCOVERY_NODES_PREFIX.toList with
  | none => .error .invalidPrefix
  | some rest =>
    match rest.dropSuffix? ".json".toList with
    | none => .error .invalidSuffix
    | some stem =>
      match splitN "__".toList 4 stem with
      | [] | [] :: _ => .error .missingNodeId
      | nodeId :: parts => parseParts nodeId parts

/-- The registrations by node; of several keys of one node the last one counts. -/
def registrationsByNode (bucket : Bucket) : HashMap NodeId NodeRegistration :=
  AList.ofPairs <| (bucket.listObjectKeys DISCOVERY_NODES_PREFIX).filterMap fun key =>
    (parseRegistrationKey key).toOption.map fun registration => (registration.nodeId, registration)

def listLiveRegistrations (bucket : Bucket) : List NodeRegistration :=
  (registrationsByNode bucket).entries.map fun e => e.2

def listLiveNodeIds (bucket : Bucket) : List NodeId :=
  (((listLiveRegistrations bucket).map fun r => r.nodeId).insertionSort fun a b => a ≤ b).dedup

/-- The key of the object that records the final dot of a departing node. -/
def finalDotKey (gcPrefix : String) (nodeId : NodeId) (finalDot : Nat) : String :=
  gcPrefix ++ "/" ++ FINAL_DOTS_PREFIX ++ nodeId ++ "_" ++ toString finalDot ++ ".json"

/-- What a node is started with, as far as its registration goes. -/
structure Discovery where
  nodeId : NodeId
  listenHost : String
  listenPort : String
  gcReplica : Bool
deriving DecidableEq

namespace Discovery

def listenAddr (self : Discovery) : String := self.listenHost ++ ":" ++ self.listenPort

/-- The key is put unless the node finds a key of its own; `expiresAt` is the time of the call plus
the TTL. -/
def register (self : Discovery) (expiresAt : DateTime) (bucket : Bucket) : Bucket :=
  if (bucket.listObjectKeys (registrationKeyPrefix self.nodeId)).isEmpty then
    bucket.putObject (registrationKey self.nodeId expiresAt self.gcReplica self.listenAddr)
  else bucket

/-- The final dot is put, then the keys that were listed before are deleted. The call succeeds also
where a delete fails, which is logged only; `failing` has the keys of these deletes. -/
def deregister (self : Discovery) (gcPrefix : String) (finalDot : Nat) (failing : List String)
    (bucket : Bucket) : Bucket :=
  let currentKeys := bucket.listObjectKeys (registrationKeyPrefix self.nodeId)
  (bucket.putObject (finalDotKey gcPrefix self.nodeId finalDot)).deleteObjects failing currentKeys

/-- The two calls by which the processes write to the bucket; each has the configuration of its
process. -/
inductive Call where
  | register (d : Discovery) (expiresAt : DateTime)
  | deregister (d : Discovery) (finalDot : UInt64) (failing : List String)
deriving DecidableEq

/-- Who calls. -/
def Call.caller : Call → Discovery
  | .register d _ => d
  | .deregister d _ _ => d

/-- The call deletes that key if it finds it. -/
def Call.Deletes (k : String) : Call → Prop
  | .register _ _ => False
  | .deregister d _ failing => startsWith k (registrationKeyPrefix d.nodeId) = true ∧ k ∉ failing

def apply (gcPrefix : String) (bucket : Bucket) : Call → Bucket
  | .register d expiresAt => d.register expiresAt bucket
  | .deregister d finalDot failing => d.deregister gcPrefix finalDot.toNat failing bucket

/-- What a sequence of successful calls leaves of an empty bucket. -/
def run (gcPrefix : String) (calls : List Call) : Bucket := calls.foldl (apply gcPrefix) ∅

theorem run_append_singleton (gcPrefix : String) (calls : List Call) (call : Call) :
    run gcPrefix (calls ++ [call]) = apply gcPrefix (run gcPrefix calls) call := by
  unfold run
  rw [List.foldl_append]
  rfl

variable {self : Discovery} {gcPrefix : String} {finalDot : Nat} {expiresAt : DateTime}
  {bucket : Bucket} {k : String}

theorem mem_register : k ∈ self.register expiresAt bucket ↔
    k ∈ bucket ∨ k = registrationKey self.nodeId expiresAt self.gcReplica self.listenAddr ∧
      ∀ own ∈ bucket, startsWith own (registrationKeyPrefix self.nodeId) = false := by
  have hempty : (bucket.listObjectKeys (registrationKeyPrefix self.nodeId)).isEmpty = true ↔
      ∀ own ∈ bucket, startsWith own (registrationKeyPrefix self.nodeId) = false := by
    rw [List.isEmpty_iff, List.eq_nil_iff_forall_not_mem]
    refine forall_congr' fun own => ?_
    rw [Bucket.mem_listObjectKeys, not_and, Bool.not_eq_true]
  unfold register
  split
  · next h =>
    rw [hempty] at h
    rw [Bucket.mem_putObject]
    tauto
  · next h =>
    rw [hempty] at h
    tauto

theorem mem_deregister {failing : List String} :
    k ∈ self.deregister gcPrefix finalDot failing bucket ↔
    (k = finalDotKey gcPrefix self.nodeId finalDot ∨ k ∈ bucket) ∧
      (k ∈ bucket → startsWith k (registrationKeyPrefix self.nodeId) = true → k ∈ failing) := by
  unfold deregister
  rw [Bucket.mem_deleteObjects, Bucket.mem_listObjectKeys, Bucket.mem_putObject, and_imp]

end Discovery

/-! ## The keys that parse -/

/-- No separator begins in the text when one follows it: it contains none and does not end in
`_`. -/
def SeparableText (text : String) : Prop := Separable "__".toList text.toList

instance (text : String) : Decidable (SeparableText text) :=
  inferInstanceAs (Decidable (Separable "__".toList text.toList))

/-- The text of a key with the given parts. -/
def keyText (nodeId marker addr ttl : List Char) : List Char :=
  DISCOVERY_NODES_PREFIX.toList ++
    (nodeId ++ "__".toList ++ (marker ++ "__".toList ++ (addr ++ "__".toList ++ ttl))) ++
    ".json".toList

theorem keyText_last (nodeId marker addr ttl : List Char) :
    ∃ front, keyText nodeId marker addr ttl = front ++ ("__".toList ++ ttl) ++ ".json".toList :=
  ⟨DISCOVERY_NODES_PREFIX.toList ++ (nodeId ++ "__".toList ++ (marker ++ "__".toList ++ addr)),
    by simp [keyText]⟩

def markerOf (gcReplica : Bool) : List Char := if gcReplica then ['1'] else ['0']

theorem separator_ne_nil : "__".toList ≠ [] := by decide

theorem parseGcReplica_eq_ok_iff {marker : List Char} {gcReplica : Bool} :
    parseGcReplica marker = .ok gcReplica ↔ marker = markerOf gcReplica := by
  unfold parseGcReplica
  split
  · cases gcReplica <;> simp [markerOf]
  · cases gcReplica <;> simp [markerOf]
  · next h₁ h₀ =>
    refine iff_of_false (by simp) fun heq => ?_
    cases gcReplica with
    | true => exact h₁ heq
    | false => exact h₀ heq

theorem parseExpiresAt_eq_ok_iff {ttl : List Char} {t : DateTime} :
    parseExpiresAt ttl = .ok t ↔ parseI64 ttl = some t.timestampMillis := by
  unfold parseExpiresAt DateTime.fromTimestampMillis
  cases hparse : parseI64 ttl with
  | none => simp
  | some millis =>
    by_cases hsupported : -8334601228800000 ≤ millis ∧ millis ≤ 8210266876799999
    · obtain ⟨m, hm⟩ := t
      simp [hsupported]
    · simp only [hsupported, dite_false, Option.some.injEq]
      refine iff_of_false (by simp) fun heq => hsupported ?_
      rw [heq]
      exact t.supported

theorem parseParts_eq_ok_iff {nodeId : List Char} {parts : List (List Char)}
    {registration : NodeRegistration} :
    parseParts nodeId parts = .ok registration ↔
      ∃ addr ttl rest, parts = markerOf registration.gcReplica :: addr :: ttl :: rest ∧
        parseI64 ttl = some registration.expiresAt.timestampMillis ∧
        registration.nodeId = .ofList nodeId ∧
        registration.nodeName = .ofList nodeId ∧ registration.addr = .ofList addr := by
  constructor
  · intro h
    unfold parseParts at h
    split at h
    · cases h
    · next marker parts =>
      cases hmarker : parseGcReplica marker with
      | error e => rw [hmarker] at h; cases h
      | ok gcReplica =>
        rw [hmarker] at h
        obtain rfl := parseGcReplica_eq_ok_iff.mp hmarker
        rcases parts with _ | ⟨addr, _ | ⟨ttl, rest⟩⟩
        · cases h
        · cases h
        · cases httl : parseExpiresAt ttl with
          | error e => simp [Bind.bind, Except.bind, httl] at h
          | ok t =>
            simp only [Bind.bind, Except.bind, httl] at h
            obtain rfl := Except.ok.inj h
            exact ⟨addr, ttl, rest, rfl, parseExpiresAt_eq_ok_iff.mp httl, rfl, rfl, rfl⟩
  · obtain ⟨id, name, address, gcReplica, t⟩ := registration
    rintro ⟨addr, ttl, rest, rfl, httl, rfl, rfl, rfl⟩
    unfold parseParts
    simp only [Bind.bind, Except.bind, parseGcReplica_eq_ok_iff.mpr rfl,
      parseExpiresAt_eq_ok_iff.mpr httl]

theorem splitN_stem_iff {stem nodeId marker addr ttl : List Char} {rest : List (List Char)} :
    splitN "__".toList 4 stem = nodeId :: marker :: addr :: ttl :: rest ↔
      stem = nodeId ++ "__".toList ++ (marker ++ "__".toList ++ (addr ++ "__".toList ++ ttl)) ∧
        Separable "__".toList nodeId ∧ Separable "__".toList marker ∧
        Separable "__".toList addr ∧ rest = [] := by
  constructor
  · intro h
    obtain ⟨_, ⟨rfl, hid⟩, h₃⟩ := (splitN_eq_cons_cons_iff separator_ne_nil).mp h
    obtain ⟨_, ⟨rfl, hmarker⟩, h₂⟩ := (splitN_eq_cons_cons_iff separator_ne_nil).mp h₃
    obtain ⟨_, ⟨rfl, haddr⟩, h₁⟩ := (splitN_eq_cons_cons_iff separator_ne_nil).mp h₂
    obtain ⟨rfl, rfl⟩ := List.cons.inj h₁
    exact ⟨rfl, hid, hmarker, haddr, rfl⟩
  · rintro ⟨rfl, hid, hmarker, haddr, rfl⟩
    exact (splitN_eq_cons_cons_iff separator_ne_nil).mpr ⟨_, ⟨rfl, hid⟩,
      (splitN_eq_cons_cons_iff separator_ne_nil).mpr ⟨_, ⟨rfl, hmarker⟩,
        (splitN_eq_cons_cons_iff separator_ne_nil).mpr ⟨_, ⟨rfl, haddr⟩, rfl⟩⟩⟩

theorem separable_markerOf (gcReplica : Bool) : Separable "__".toList (markerOf gcReplica) := by
  cases gcReplica <;> decide

/-- **The keys that parse**: those that spell the parts of the registration, neither the id nor the
address bringing a separator along. -/
theorem parseRegistrationKey_eq_ok_iff {key : String} {registration : NodeRegistration} :
    parseRegistrationKey key = .ok registration ↔
      registration.nodeName = registration.nodeId ∧ registration.nodeId ≠ "" ∧
        SeparableText registration.nodeId ∧ SeparableText registration.addr ∧
        ∃ ttl, parseI64 ttl = some registration.expiresAt.timestampMillis ∧
          key.toList = keyText registration.nodeId.toList (markerOf registration.gcReplica)
            registration.addr.toList ttl := by
  constructor
  · intro h
    unfold parseRegistrationKey at h
    split at h
    · cases h
    · next rest hrest =>
      rw [dropPrefix?_iff] at hrest
      split at h
      · cases h
      · next stem hstem =>
        obtain rfl := dropSuffix?_iff.mp hstem
        split at h
        · cases h
        · cases h
        · next nodeId parts hne hsplit =>
          obtain ⟨addr, ttl, more, rfl, httl, hid, hname, haddr⟩ := parseParts_eq_ok_iff.mp h
          obtain ⟨rfl, hsid, -, hsaddr, -⟩ := splitN_stem_iff.mp hsplit
          rw [hid, hname, haddr]
          unfold SeparableText keyText
          simp only [String.toList_ofList]
          refine ⟨trivial, fun hempty => hne ?_, hsid, hsaddr, ttl, httl, hrest⟩
          exact String.toList_ofList.symm.trans (congrArg String.toList hempty)
  · rintro ⟨hname, hne, hsid, hsaddr, ttl, httl, hkey⟩
    have hsplit : splitN "__".toList 4 (registration.nodeId.toList ++ "__".toList ++
        (markerOf registration.gcReplica ++ "__".toList ++
          (registration.addr.toList ++ "__".toList ++ ttl))) =
          [registration.nodeId.toList, markerOf registration.gcReplica,
              registration.addr.toList, ttl] :=
      splitN_stem_iff.mpr ⟨rfl, hsid, separable_markerOf registration.gcReplica, hsaddr, rfl⟩
    have hstart := dropPrefix?_iff.mpr (hkey.trans (List.append_assoc _ _ _))
    unfold parseRegistrationKey
    rw [hstart]
    simp only
    rw [dropSuffix?_iff.mpr rfl]
    simp only
    rw [hsplit]
    have hnil : registration.nodeId.toList ≠ [] := fun h => hne (String.toList_inj.mp h)
    split
    · next h => cases h
    · next h => exact absurd (List.cons.inj h).1 hnil
    · next h =>
      obtain ⟨rfl, rfl⟩ := List.cons.inj h
      exact parseParts_eq_ok_iff.mpr ⟨_, _, _, rfl, httl, String.ofList_toList.symm,
        hname.trans String.ofList_toList.symm, String.ofList_toList.symm⟩

/-! ## Whose keys a node takes for its own -/

section keys

variable {id nodeId addr gcPrefix : String} {expiresAt : DateTime} {gcReplica : Bool}
  {finalDot : Nat}

theorem toList_registrationKey :
    (registrationKey nodeId expiresAt gcReplica addr).toList =
      keyText nodeId.toList (markerOf gcReplica) addr.toList
        (toString expiresAt.timestampMillis).toList := by
  unfold registrationKey keyText markerOf
  cases gcReplica <;> simp

theorem parseI64_timestampMillis (t : DateTime) :
    parseI64 (toString t.timestampMillis).toList = some t.timestampMillis := by
  have hsupported := t.supported
  exact parseI64_toString (by omega) (by omega)

/-- A registration key says what was put into it, unless its id or its address brings a separator
along. -/
theorem parse_registrationKey_iff :
    parseRegistrationKey (registrationKey nodeId expiresAt gcReplica addr) =
        .ok { nodeId, nodeName := nodeId, addr, gcReplica, expiresAt } ↔
      nodeId ≠ "" ∧ SeparableText nodeId ∧ SeparableText addr := by
  rw [parseRegistrationKey_eq_ok_iff, toList_registrationKey]
  constructor
  · rintro ⟨-, hne, hid, haddr, -⟩
    exact ⟨hne, hid, haddr⟩
  · rintro ⟨hne, hid, haddr⟩
    exact ⟨rfl, hne, hid, haddr, _, parseI64_timestampMillis expiresAt, rfl⟩

theorem startsWith_registrationKey_iff (hid : SeparableText id) (hnode : SeparableText nodeId) :
    startsWith (registrationKey nodeId expiresAt gcReplica addr) (registrationKeyPrefix id) = true ↔
    id = nodeId := by
  rw [startsWith_iff, toList_registrationKey]
  unfold registrationKeyPrefix keyText
  simp only [String.toList_append, List.append_assoc, List.prefix_append_right_inj]
  constructor
  · intro h
    rw [← List.append_assoc nodeId.toList] at h
    exact String.toList_inj.mp (Separable.eq_of_prefix separator_ne_nil hid hnode h)
  · rintro rfl
    rw [List.prefix_append_right_inj]
    exact List.prefix_append _ _

/-- What a final dot adds to the GC prefix. -/
def finalDotTail (nodeId : NodeId) (finalDot : Nat) : List Char :=
  "final_dots/".toList ++ nodeId.toList ++ "_".toList ++ Nat.toDigits 10 finalDot ++ ".json".toList

theorem toList_finalDotKey :
    (finalDotKey gcPrefix nodeId finalDot).toList =
      gcPrefix.toList ++ '/' :: finalDotTail nodeId finalDot := by
  unfold finalDotKey finalDotTail FINAL_DOTS_PREFIX
  simp

theorem no_separator_in_finalDotTail (hnode : SeparableText nodeId) :
    ¬ "__".toList <:+: '/' :: finalDotTail nodeId finalDot := by
  obtain ⟨digit, digits, hdigits, hdigit⟩ := toDigits_cons finalDot
  have hrest : ∀ x ∈ digits ++ ".json".toList, x ≠ '_' := by
    intro x hx
    rcases List.mem_append.mp hx with hx | hx
    · have hmem : x ∈ Nat.toDigits 10 finalDot := hdigits ▸ List.mem_cons_of_mem _ hx
      rintro rfl
      exact absurd (isDigit_of_mem_toDigits hmem) (by decide)
    · rintro rfl
      exact absurd hx (by decide)
  have htail : '/' :: finalDotTail nodeId finalDot =
      "/final_dots".toList ++ '/' ::
          (nodeId.toList ++ "_".toList ++ digit :: (digits ++ ".json".toList)) := by
    unfold finalDotTail
    rw [hdigits]
    simp
  have hdivides : digit ∉ "__".toList := by
    intro hmem
    have hdash : digit = '_' := by simpa using hmem
    rw [hdash] at hdigit
    exact absurd hdigit (by decide)
  rw [htail]
  intro h
  rcases infix_append_cons (by decide) h with h | h
  · exact absurd h (by decide)
  · rcases infix_append_cons hdivides h with h | h
    · exact hnode h
    · exact hrest '_' (h.subset (by decide)) rfl

theorem startsWith_finalDotKey_iff (hnode : SeparableText nodeId) :
    startsWith (finalDotKey gcPrefix nodeId finalDot) (registrationKeyPrefix id) = true ↔
      startsWith gcPrefix (registrationKeyPrefix id) = true := by
  rw [startsWith_iff, startsWith_iff, toList_finalDotKey]
  constructor
  · intro h
    unfold registrationKeyPrefix at h ⊢
    rw [String.toList_append] at h ⊢
    exact prefix_of_prefix_append (by decide) (no_separator_in_finalDotTail hnode) h
  · intro h
    exact h.trans (List.prefix_append _ _)

theorem parse_finalDotKey_ne (hnode : SeparableText nodeId) (registration : NodeRegistration) :
    parseRegistrationKey (finalDotKey gcPrefix nodeId finalDot) ≠ .ok registration := by
  intro h
  obtain ⟨-, -, -, -, ttl, httl, hkey⟩ := parseRegistrationKey_eq_ok_iff.mp h
  rw [toList_finalDotKey] at hkey
  obtain ⟨front, hfront⟩ :=
    keyText_last registration.nodeId.toList (markerOf registration.gcReplica)
    registration.addr.toList ttl
  rw [hfront, List.append_assoc, List.append_assoc, ← List.append_assoc front] at hkey
  -- the last separator lies in the GC prefix, so the expiry has a slash in it
  have hpre : front ++ "__".toList <+: gcPrefix.toList ++ '/' :: finalDotTail nodeId finalDot := by
    rw [hkey]
    exact List.prefix_append _ _
  obtain ⟨z, hz⟩ := prefix_of_prefix_append (by decide) (no_separator_in_finalDotTail hnode) hpre
  rw [← hz, List.append_assoc] at hkey
  have htail := List.append_cancel_left hkey
  have hmem : '/' ∈ ttl ++ ".json".toList := by
    rw [← htail]
    exact List.mem_append_right z List.mem_cons_self
  rcases List.mem_append.mp hmem with hmem | hmem
  · exact absurd (mem_of_parseI64 httl hmem) (by decide)
  · exact absurd hmem (by decide)

end keys

/-! ## Listings -/

section listings

variable {bucket : Bucket} {id : NodeId} {r : NodeRegistration}

theorem mem_listObjectKeys_of_parse {k : String} (h : parseRegistrationKey k = .ok r) :
    k ∈ bucket.listObjectKeys DISCOVERY_NODES_PREFIX ↔ k ∈ bucket := by
  obtain ⟨-, -, -, -, ttl, -, hkey⟩ := parseRegistrationKey_eq_ok_iff.mp h
  rw [Bucket.mem_listObjectKeys, startsWith_iff, hkey]
  unfold keyText
  rw [List.append_assoc]
  exact and_iff_left (List.prefix_append _ _)

theorem lookup_registrationsByNode_iff : (registrationsByNode bucket).lookup id = some r ↔
    ∃ k ∈ bucket, (parseRegistrationKey k = .ok r ∧ r.nodeId = id) ∧
      ∀ k' ∈ bucket, ∀ r', parseRegistrationKey k' = .ok r' → r'.nodeId = id → k' ≤ k := by
  have hentry : ∀ k : String, ∀ r' : NodeRegistration,
      (parseRegistrationKey k).toOption.map
        (fun registration => (registration.nodeId, registration)) = some (id, r') ↔
        parseRegistrationKey k = .ok r' ∧ r'.nodeId = id := by
    intro k r'
    cases parseRegistrationKey k with
    | error e => simp [Except.toOption]
    | ok r =>
      simp only [Except.toOption, Option.map_some, Option.some.injEq, Prod.mk.injEq,
        Except.ok.injEq]
      constructor
      · rintro ⟨rfl, rfl⟩
        exact ⟨rfl, rfl⟩
      · rintro ⟨rfl, rfl⟩
        exact ⟨rfl, rfl⟩
  unfold registrationsByNode
  rw [AList.lookup_ofPairs_sorted (f := fun k : String => k) (Bucket.pairwise_listObjectKeys _ _)]
  · simp only [hentry, and_imp]
    constructor
    · rintro ⟨k, hk, hparse, hmax⟩
      refine ⟨k, (mem_listObjectKeys_of_parse hparse.1).mp hk, hparse, fun k' hk' r' hr' => ?_⟩
      exact hmax k' ((mem_listObjectKeys_of_parse hr').mpr hk') r' hr'
    · rintro ⟨k, hk, hparse, hmax⟩
      refine ⟨k, (mem_listObjectKeys_of_parse hparse.1).mpr hk, hparse, fun k' hk' r' hr' => ?_⟩
      exact hmax k' ((mem_listObjectKeys_of_parse hr').mp hk') r' hr'
  · intro k _ k' _ v w hv hw heq
    obtain rfl : k = k' := heq
    rw [hv] at hw
    exact (Prod.mk.inj (Option.some.inj hw)).2

theorem mem_registrationsByNode_of_parse {k : String} (hk : k ∈ bucket)
    (h : parseRegistrationKey k = .ok r) :
    r.nodeId ∈ registrationsByNode bucket := by
  refine AList.mem_foldl_insert.mpr (Or.inl ⟨r, List.mem_filterMap.mpr ⟨k, ?_, ?_⟩⟩)
  · exact (mem_listObjectKeys_of_parse h).mpr hk
  · rw [h]
    rfl

theorem mem_listLiveRegistrations :
    r ∈ listLiveRegistrations bucket ↔ (registrationsByNode bucket).lookup r.nodeId = some r := by
  unfold listLiveRegistrations
  rw [List.mem_map]
  constructor
  · rintro ⟨⟨id, r'⟩, he, rfl⟩
    have hlookup := AList.mem_lookup_iff.mpr he
    obtain ⟨-, -, ⟨-, rfl⟩, -⟩ := lookup_registrationsByNode_iff.mp hlookup
    exact hlookup
  · intro h
    exact ⟨⟨r.nodeId, r⟩, AList.mem_lookup_iff.mp h, rfl⟩

theorem mem_listLiveNodeIds_iff_registration :
    id ∈ listLiveNodeIds bucket ↔ ∃ r ∈ listLiveRegistrations bucket, r.nodeId = id := by
  unfold listLiveNodeIds
  rw [List.mem_dedup, List.mem_insertionSort, List.mem_map]

theorem mem_listLiveNodeIds : id ∈ listLiveNodeIds bucket ↔ id ∈ registrationsByNode bucket := by
  rw [mem_listLiveNodeIds_iff_registration, AList.mem_iff_lookup]
  constructor
  · rintro ⟨r, hr, rfl⟩
    exact ⟨r, mem_listLiveRegistrations.mp hr⟩
  · rintro ⟨r, hr⟩
    obtain ⟨-, -, ⟨-, rfl⟩, -⟩ := lookup_registrationsByNode_iff.mp hr
    exact ⟨r, mem_listLiveRegistrations.mpr hr, rfl⟩

end listings

end ExperimentalCrdt
