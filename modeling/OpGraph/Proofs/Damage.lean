import OpGraph.Proofs.Sealing

/-! Damaged containers. A reader in machine words takes each size from the data and has to see that no sum of sizes is
beyond a word and no place outside the data. The checks come in the order in which the sizes are used, so a container
that was cut, or says that it is longer than it is, ends at one of them; any other damage leaves bytes and a digest
that differ. -/

namespace OpGraph.Container

/-! ## Reading in machine words -/

/-- What ends a reading. Only a refusal is meant; the others are faults of the reader. -/
inductive Stop where
  | refused (error : ContainerError)
  /-- A place outside the data. -/
  | outside
  /-- A sum that no word holds. -/
  | overflow
deriving DecidableEq

/-- What is read in words below a limit, such as `2 ^ 64`. -/
abbrev Reading (α : Type) := Except Stop α

namespace Reading

def refuse {α : Type} (error : ContainerError) : Reading α := .error (.refused error)

def check (condition : Prop) [Decidable condition] (error : ContainerError) : Reading Unit :=
  (require condition error).mapError .refused

def between (bytes : Bytes) (start stop : Nat) : Reading Bytes :=
  if start ≤ stop ∧ stop ≤ bytes.length then .ok ((bytes.take stop).drop start) else .error .outside

def byte (bytes : Bytes) (index : Nat) : Reading UInt8 :=
  if index < bytes.length then .ok (byteAt bytes index) else .error .outside

def sum (limit first second : Nat) : Reading Nat :=
  if first + second < limit then .ok (first + second) else .error .overflow

def checkedSum (limit first second : Nat) : Reading Nat :=
  if first + second < limit then .ok (first + second) else refuse .tooSmall

def count (limit : Nat) (bytes : Bytes) (start : Nat) : Reading Nat := do
  let stop ← sum limit start 8
  return readLittleEndian (← between bytes start stop)

/-- Reads a container in words below a limit, looking at bytes only through their places. -/
def container (limit : Nat) (bytes : Bytes) : Reading Container := do
  check (headerSize + digestSize ≤ bytes.length) .tooSmall
  check ((← between bytes 0 4) = magic) .invalidMagic
  let version : FormatVersion := ⟨← byte bytes 4, ← byte bytes 5, ← byte bytes 6⟩
  check version.isCompatible (.unsupportedVersion version)
  let flags : FormatFlags := ⟨← byte bytes 7⟩
  let nodeCount ← count limit bytes 8
  let edgeCount ← count limit bytes 16
  let size ← count limit bytes 24
  check (size < limit) .tooSmall
  let payloadEnd ← checkedSum limit headerSize size
  let digestEnd ← checkedSum limit payloadEnd digestSize
  check (digestEnd ≤ bytes.length) .tooSmall
  let stored ← between bytes payloadEnd digestEnd
  check (Sha256.digest (← between bytes 0 payloadEnd) = stored) .hashMismatch
  let graph ← (Graph.ofBytes (← between bytes headerSize payloadEnd)).mapError fun error => .refused (.payload error)
  check (nodeCount = graph.nodeCount) (.countMismatch "nodes" nodeCount graph.nodeCount)
  check (edgeCount = graph.edgeCount) (.countMismatch "edges" edgeCount graph.edgeCount)
  return ⟨version, flags, graph⟩

variable {bytes : Bytes} {limit : Nat}

theorem ok_bind {α β : Type} (value : α) (next : α → Reading β) : (Except.ok value >>= next) = next value := rfl

theorem between_eq {start stop : Nat} (ordered : start ≤ stop) (inside : stop ≤ bytes.length) :
    between bytes start stop = .ok ((bytes.take stop).drop start) := if_pos ⟨ordered, inside⟩

theorem between_add {start size : Nat} (inside : start + size ≤ bytes.length) :
    between bytes start (start + size) = .ok (slice bytes start size) := by
  rw [between_eq (Nat.le_add_right start size) inside, List.drop_take, Nat.add_sub_cancel_left, slice]

theorem byte_eq {index : Nat} (inside : index < bytes.length) :
    byte bytes index = .ok (byteAt bytes index) := if_pos inside

theorem count_eq {start : Nat} (inside : start + 8 ≤ bytes.length) (held : bytes.length < limit) :
    count limit bytes start = .ok (readLittleEndian (slice bytes start 8)) := by
  rw [count, sum, if_pos (by omega)]
  rw [ok_bind, between_add inside]
  rfl

theorem check_bind {condition : Prop} [Decidable condition] (holds : condition) {error : ContainerError} {α : Type}
    {next : Unit → Reading α} : (check condition error >>= next) = next () := by
  rw [check, require, if_pos holds]
  rfl

theorem check_bind_not {condition : Prop} [Decidable condition] (fails : ¬ condition)
    {error : ContainerError} {α : Type}
    {next : Unit → Reading α} : (check condition error >>= next) = refuse error := by
  rw [check, require, if_neg fails]
  rfl

/-- What follows a check may rely on it. -/
theorem check_bind_congr {condition : Prop} [Decidable condition] {error : ContainerError} {α : Type}
    {next other : Unit → Reading α} (same : condition → next () = other ()) :
    (check condition error >>= next) = check condition error >>= other := by
  by_cases holds : condition
  · rw [check_bind holds, check_bind holds, same holds]
  · rw [check_bind_not holds, check_bind_not holds]

theorem mapError_bind {ε ε' α β : Type} (wrap : ε → ε') (result : Except ε α) (next : α → Except ε β) :
    (result >>= next).mapError wrap = result.mapError wrap >>= fun value => (next value).mapError wrap := by
  cases result <;> rfl

theorem checkedSum_bind {first second : Nat} {α : Type} (next : Nat → Reading α) :
    (checkedSum limit first second >>= next) = check (first + second < limit) .tooSmall >>= fun _ =>
      next (first + second) := by
  rw [checkedSum]
  split
  next held => rw [check_bind held]; rfl
  next above => rw [check_bind_not above]; rfl

theorem check_check {first second : Prop} [Decidable first] [Decidable second] (error : ContainerError) {α : Type}
    (next : Unit → Reading α) :
    (check first error >>= fun _ => check second error >>= next) = check (first ∧ second) error >>= next := by
  by_cases holds : first
  · simp only [holds, true_and]
    exact check_bind trivial
  · rw [check_bind_not holds, check_bind_not (mt And.left holds)]

/-- As the data are in memory, places that no word holds are beyond them, and the sums that are refused would be too. -/
theorem places_eq {size : Nat} (held : bytes.length < limit) {α : Type} (next : Nat → Nat → Reading α) :
    (do
      check (size < limit) .tooSmall
      let payloadEnd ← checkedSum limit headerSize size
      let digestEnd ← checkedSum limit payloadEnd digestSize
      check (digestEnd ≤ bytes.length) .tooSmall
      next payloadEnd digestEnd) = (do
      check (headerSize + size + digestSize ≤ bytes.length) .tooSmall
      next (headerSize + size) (headerSize + size + digestSize)) := by
  simp only [checkedSum_bind, check_check]
  congr 2
  exact propext (by omega)

/-- Read in words, the data are never left and no sum is beyond a word: a reading ends as that of the whole bytes
does. -/
theorem container_eq (held : bytes.length < limit) : container limit bytes = (ofBytes bytes).mapError .refused := by
  simp only [ofBytes, checkCount, mapError_bind]
  refine check_bind_congr fun enough => ?_
  have header {stop : Nat} (small : stop ≤ headerSize) : stop ≤ bytes.length := by omega
  have front : between bytes 0 4 = .ok (bytes.take 4) := between_eq (by decide) (header (by decide))
  rw [front]
  refine check_bind_congr fun _ => ?_
  rw [byte_eq (header (by decide)), byte_eq (header (by decide)), byte_eq (header (by decide))]
  refine check_bind_congr fun _ => ?_
  rw [byte_eq (header (by decide)), count_eq (header (by decide)) held, count_eq (header (by decide)) held,
    count_eq (header (by decide)) held]
  refine (places_eq held _).trans ?_
  refine check_bind_congr fun complete => ?_
  have stored := between_add complete
  have covered := between_eq (Nat.zero_le _) (Nat.le_of_add_right_le complete)
  have payload := between_eq (Nat.le_add_right headerSize _) (Nat.le_of_add_right_le complete)
  rw [stored, covered, payload]
  refine check_bind_congr fun _ => ?_
  rw [ok_bind]
  cases Graph.ofBytes ((bytes.take (headerSize + readLittleEndian (slice bytes 24 8))).drop headerSize) <;> rfl

end Reading

/-! ## Damage -/

variable {bytes : Bytes}

theorem require_bind_not {condition : Prop} [Decidable condition] (fails : ¬ condition)
    {error : ContainerError} {α : Type}
    {next : Unit → Except ContainerError α} : (require condition error >>= next) = .error error := by
  rw [require, if_neg fails]
  rfl

/-- Bytes that start as those of a container do, up to the flags. -/
structure Begins (bytes : Bytes) : Prop where
  magic : bytes.take 4 = magic
  compatible : (⟨byteAt bytes 4, byteAt bytes 5, byteAt bytes 6⟩ : FormatVersion).isCompatible

namespace Begins

theorem header_append (container : Container) (compatible : container.version.isCompatible) (payload rest : Bytes) :
    Begins (container.header payload ++ rest) := ⟨rfl, compatible⟩

/-- The first seven bytes decide. -/
theorem of_append {rest : Bytes} (begins : Begins (bytes ++ rest)) (enough : headerSize ≤ bytes.length) :
    Begins bytes := by
  have byte {index : Nat} (small : index < headerSize) : byteAt (bytes ++ rest) index = byteAt bytes index :=
    byteAt_append_left (Nat.lt_of_lt_of_le small enough) rest
  obtain ⟨magic, compatible⟩ := begins
  rw [List.take_append_of_le_length (Nat.le_trans (by decide) enough)] at magic
  rw [byte (by decide), byte (by decide), byte (by decide)] at compatible
  exact ⟨magic, compatible⟩

/-- A container that ends before its digest does is too small. -/
theorem ofBytes_incomplete (begins : Begins bytes) (incomplete : bytes.length < payloadEnd bytes + digestSize) :
    ofBytes bytes = .error .tooSmall := by
  by_cases enough : headerSize + digestSize ≤ bytes.length
  · rw [payloadEnd, declaredSize] at incomplete
    rw [ofBytes, require_bind enough, require_bind begins.magic]
    exact (require_bind begins.compatible).trans (require_bind_not (Nat.not_le_of_lt incomplete))
  · exact require_bind_not enough

theorem ofBytes_mismatch (begins : Begins bytes) (complete : payloadEnd bytes + digestSize ≤ bytes.length)
    (differs : Sha256.digest (bytes.take (payloadEnd bytes)) ≠ slice bytes (payloadEnd bytes) digestSize) :
    ofBytes bytes = .error .hashMismatch := by
  have enough : headerSize + digestSize ≤ bytes.length := by
    rw [payloadEnd] at complete
    omega
  rw [payloadEnd, declaredSize] at complete differs
  rw [ofBytes, require_bind enough, require_bind begins.magic]
  exact ((require_bind begins.compatible).trans (require_bind complete)).trans (require_bind_not differs)

end Begins

variable (container : Container) {payload : Bytes}

theorem begins_toBytesWith (compatible : container.version.isCompatible) : Begins (container.toBytesWith payload) := by
  rw [toBytesWith, bodyWith_eq, List.append_assoc]
  exact Begins.header_append container compatible payload _

/-- A container that is cut is too small, wherever it is cut. -/
theorem ofBytes_cut (compatible : container.version.isCompatible) (small : payload.length < 2 ^ 64) {rest : Bytes}
    (whole : bytes ++ rest = container.toBytesWith payload) (cut : rest ≠ []) : ofBytes bytes = .error .tooSmall := by
  by_cases enough : headerSize + digestSize ≤ bytes.length
  · have header : headerSize ≤ bytes.length := Nat.le_of_add_right_le enough
    have begins : Begins (container.toBytesWith payload) := container.begins_toBytesWith compatible
    rw [← whole] at begins
    have placed : payloadEnd bytes = (container.bodyWith payload).length := by
      rw [← payloadEnd_append header rest, whole]
      exact payloadEnd_body_append container small _
    have length := container.length_toBytesWith payload
    rw [← whole, List.length_append] at length
    have shorter := List.length_pos_iff.mpr cut
    exact (begins.of_append header).ofBytes_incomplete (by omega)
  · exact require_bind_not enough

def resized (bytes : Bytes) (size : Nat) : Bytes := bytes.take 24 ++ littleEndian 8 size ++ bytes.drop headerSize

theorem begins_resized (compatible : container.version.isCompatible) (size : Nat) :
    Begins (resized (container.toBytesWith payload) size) := ⟨rfl, compatible⟩

/-- A container is too small for any payload that is larger than its own. -/
theorem ofBytes_resized (compatible : container.version.isCompatible) {size : Nat} (larger : payload.length < size)
    (held : size < 2 ^ 64) : ofBytes (resized (container.toBytesWith payload) size) = .error .tooSmall := by
  have header : headerSize = 32 := rfl
  have body := container.length_bodyWith payload
  have whole := container.length_toBytesWith payload
  have front : ((container.toBytesWith payload).take 24).length = 24 := List.length_take_of_le (by omega)
  have declared : declaredSize (resized (container.toBytesWith payload) size) = size := by
    rw [declaredSize, resized, List.append_assoc, slice_append front (length_littleEndian 8 size),
      readLittleEndian_eight held]
  refine (container.begins_resized compatible size).ofBytes_incomplete ?_
  rw [payloadEnd, declared, resized, List.length_append, List.length_append, front, length_littleEndian,
    List.length_drop]
  omega

section Covered

variable {container} {covered digest : Bytes} (length : covered.length = (container.bodyWith payload).length)
  (size : slice covered 24 8 = slice (container.bodyWith payload) 24 8) (small : payload.length < 2 ^ 64)

include length size small

theorem payloadEnd_covered_append : payloadEnd (covered ++ digest) = covered.length := by
  have header : headerSize ≤ covered.length := by
    rw [length, length_bodyWith]
    exact Nat.le_add_right _ _
  have placed := payloadEnd_body_append container small []
  rw [List.append_nil] at placed
  rw [payloadEnd_append header, length, ← placed, payloadEnd, payloadEnd, declaredSize, declaredSize, size]

/-- With the size of the payload as it was, the digest is looked for where it was. -/
theorem digest_covered (digestLength : digest.length = digestSize) {read : Container}
    (accepted : ofBytes (covered ++ digest) = .ok read) : Sha256.digest covered = digest := by
  have found := (ofBytes_eq_ok.mp accepted).digest
  have last : slice (covered ++ digest) covered.length digestSize = digest := by
    rw [slice, List.drop_left, List.take_of_length_le (Nat.le_of_eq digestLength)]
  rwa [payloadEnd_covered_append length size small, List.take_left, last] at found

end Covered

/-- Data in memory are read without a fault: no place is outside of them and no sum beyond a word, whatever size they
give. A container that was cut, or that gives a larger size, is too small; one with any other bytes of it changed, or
with another digest, is refused when its digest is not that of its bytes. All this holds whatever text the payload
is. -/
theorem damage_is_refused :
    (∀ limit bytes, bytes.length < limit → Reading.container limit bytes = (ofBytes bytes).mapError .refused) ∧
    ∀ (container : Container) (payload : Bytes), container.version.isCompatible → payload.length < 2 ^ 64 →
      (∀ bytes rest, bytes ++ rest = container.toBytesWith payload → rest ≠ [] → ofBytes bytes = .error .tooSmall) ∧
      (∀ size, payload.length < size → size < 2 ^ 64 →
        ofBytes (resized (container.toBytesWith payload) size) = .error .tooSmall) ∧
      (∀ covered, covered.length = (container.bodyWith payload).length →
        slice covered 24 8 = slice (container.bodyWith payload) 24 8 →
        Sha256.digest covered ≠ Sha256.digest (container.bodyWith payload) →
        ∃ error, ofBytes (covered ++ Sha256.digest (container.bodyWith payload)) = .error error) ∧
      ∀ digest, digest.length = digestSize → digest ≠ Sha256.digest (container.bodyWith payload) →
        ofBytes (container.bodyWith payload ++ digest) = .error .hashMismatch := by
  refine ⟨fun limit bytes held => Reading.container_eq held, fun container payload compatible small => ⟨?_, ?_, ?_, ?_⟩⟩
  · exact fun bytes rest whole cut => container.ofBytes_cut compatible small whole cut
  · exact fun size larger held => container.ofBytes_resized compatible larger held
  · intro covered length size differs
    cases read : ofBytes (covered ++ Sha256.digest (container.bodyWith payload)) with
    | error error => exact ⟨error, rfl⟩
    | ok accepted => exact absurd (digest_covered length size small (Sha256.length_digest _) read) differs
  · intro digest length differs
    have begins := Begins.header_append container compatible payload (payload ++ digest)
    rw [← List.append_assoc, ← bodyWith_eq] at begins
    have placed := payloadEnd_body_append container small digest
    refine begins.ofBytes_mismatch ?_ ?_
    · rw [placed, List.length_append, length]
    · rw [placed, List.take_left, slice, List.drop_left, List.take_of_length_le (Nat.le_of_eq length)]
      exact differs.symm

/-- The container of the empty graph: with the largest size, without its last byte, with other flags, and with another
digest. -/
theorem damage_is_refused_empty :
    let container : Container := ⟨.current, .none, .empty⟩
    let body := container.bodyWith container.payload
    Reading.container (2 ^ 64) (resized container.toBytes (2 ^ 64 - 1)) = .error (.refused .tooSmall) ∧
    ofBytes (resized container.toBytes (2 ^ 64 - 1)) = .error .tooSmall ∧
    ofBytes container.toBytes.dropLast = .error .tooSmall ∧
    (∃ error, ofBytes (body.set 7 1 ++ Sha256.digest body) = .error error) ∧
    ofBytes (body ++ List.replicate digestSize 0) = .error .hashMismatch := by
  intro container body
  have small : container.payload.length < 2 ^ 64 := by decide +kernel
  obtain ⟨faultless, damaged⟩ := damage_is_refused
  obtain ⟨cut, resized, covered, digest⟩ := damaged container container.payload (by decide) small
  have larger := resized (2 ^ 64 - 1) (by decide +kernel) (by decide)
  have nonempty : container.toBytesWith container.payload ≠ [] := by decide +kernel
  rw [show container.toBytes = container.toBytesWith container.payload from rfl]
  refine ⟨?_, larger, cut _ _ (List.dropLast_append_getLast nonempty) (List.cons_ne_nil _ _), ?_, ?_⟩
  · rw [faultless _ _ (by decide +kernel), larger]
    rfl
  · exact covered _ List.length_set (by decide +kernel) (by decide +kernel)
  · exact digest _ List.length_replicate (by decide +kernel)

end OpGraph.Container
