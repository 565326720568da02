import OpGraph.Proofs.Edits
import OpGraph.Proofs.Storage

/-! What a reader of containers accepts. The header tells where the payload ends, and nothing is asked of the bytes
after the digest: the bytes that are accepted are those of a sealed container with any others behind it. -/

namespace OpGraph.Container

/-! ## What the header gives -/

def declaredSize (bytes : Bytes) : Nat := readLittleEndian (slice bytes 24 8)

def payloadEnd (bytes : Bytes) : Nat := headerSize + declaredSize bytes

theorem slice_append_left {bytes : Bytes} {start size : Nat} (inside : start + size ≤ bytes.length) (rest : Bytes) :
    slice (bytes ++ rest) start size = slice bytes start size := by
  rw [slice, List.drop_append_of_le_length (by omega),
    List.take_append_of_le_length (by rw [List.length_drop]; omega), slice]

theorem byteAt_append_left {bytes : Bytes} {index : Nat} (inside : index < bytes.length) (rest : Bytes) :
    byteAt (bytes ++ rest) index = byteAt bytes index := by
  rw [byteAt, byteAt, List.getD_eq_getElem?_getD, List.getD_eq_getElem?_getD, List.getElem?_append_left inside]

theorem declaredSize_append {bytes : Bytes} (header : headerSize ≤ bytes.length) (rest : Bytes) :
    declaredSize (bytes ++ rest) = declaredSize bytes := congrArg readLittleEndian (slice_append_left header rest)

theorem payloadEnd_append {bytes : Bytes} (header : headerSize ≤ bytes.length) (rest : Bytes) :
    payloadEnd (bytes ++ rest) = payloadEnd bytes := congrArg (headerSize + ·) (declaredSize_append header rest)

/-- What a container says of the size of its payload, before anything. -/
theorem payloadEnd_body_append (container : Container) {payload : Bytes} (small : payload.length < 2 ^ 64)
    (rest : Bytes) : payloadEnd (container.bodyWith payload ++ rest) = (container.bodyWith payload).length := by
  rw [payloadEnd, declaredSize, bodyWith_eq, List.append_assoc, slice_header_append, readLittleEndian_eight small,
    List.length_append, length_header]

/-! ## What is accepted -/

structure Reads (bytes : Bytes) (container : Container) : Prop where
  magic : bytes.take 4 = magic
  version : ⟨byteAt bytes 4, byteAt bytes 5, byteAt bytes 6⟩ = container.version
  compatible : container.version.isCompatible
  flags : ⟨byteAt bytes 7⟩ = container.flags
  complete : payloadEnd bytes + digestSize ≤ bytes.length
  digest : Sha256.digest (bytes.take (payloadEnd bytes)) = slice bytes (payloadEnd bytes) digestSize
  graph : Graph.ofBytes ((bytes.take (payloadEnd bytes)).drop headerSize) = .ok container.graph
  nodes : readLittleEndian (slice bytes 8 8) = container.graph.nodeCount
  edges : readLittleEndian (slice bytes 16 8) = container.graph.edgeCount

theorem require_eq_ok {condition : Prop} [Decidable condition] {error : ContainerError} {value : Unit} :
    require condition error = .ok value ↔ condition := by
  rw [require]
  split <;> simp_all

theorem ofBytes_eq_ok {bytes : Bytes} {container : Container} :
    ofBytes bytes = .ok container ↔ Reads bytes container := by
  simp only [ofBytes, checkCount, bind_eq_ok, require_eq_ok, mapError_eq_ok]
  constructor
  · rintro ⟨_, -, _, magic, _, compatible, _, complete, _, digest, graph, read, _, nodes, _, edges, ⟨⟩⟩
    exact ⟨magic, rfl, compatible, rfl, complete, digest, read, nodes, edges⟩
  · rintro ⟨magic, version, compatible, flags, complete, digest, graph, nodes, edges⟩
    obtain ⟨_, _, _⟩ := container
    cases version
    cases flags
    refine ⟨(), ?_, (), magic, (), compatible, (), complete, (), digest, _, graph, (), nodes, (), edges, rfl⟩
    rw [payloadEnd] at complete
    omega

/-- What follows the digest is not looked at, whether the bytes are accepted or not. -/
theorem ofBytes_append {bytes : Bytes} (complete : payloadEnd bytes + digestSize ≤ bytes.length) (rest : Bytes) :
    ofBytes (bytes ++ rest) = ofBytes bytes := by
  have enough : headerSize + digestSize ≤ bytes.length := by
    rw [payloadEnd] at complete
    omega
  have header : headerSize ≤ bytes.length := Nat.le_of_add_right_le enough
  have longer {size : Nat} (least : size ≤ bytes.length) : size ≤ (bytes ++ rest).length := by
    rw [List.length_append]
    exact Nat.le_add_right_of_le least
  have front : (bytes ++ rest).take 4 = bytes.take 4 := List.take_append_of_le_length (Nat.le_trans (by decide) header)
  have byte {index : Nat} (small : index < headerSize) : byteAt (bytes ++ rest) index = byteAt bytes index :=
    byteAt_append_left (Nat.lt_of_lt_of_le small header) rest
  have count {start : Nat} (small : start + 8 ≤ headerSize) : slice (bytes ++ rest) start 8 = slice bytes start 8 :=
    slice_append_left (Nat.le_trans small header) rest
  have covered : (bytes ++ rest).take (payloadEnd bytes) = bytes.take (payloadEnd bytes) :=
    List.take_append_of_le_length (Nat.le_of_add_right_le complete)
  have last : slice (bytes ++ rest) (payloadEnd bytes) digestSize = slice bytes (payloadEnd bytes) digestSize :=
    slice_append_left complete rest
  simp only [ofBytes, front, @byte 4 (by decide), @byte 5 (by decide), @byte 6 (by decide), @byte 7 (by decide),
    @count 8 (by decide), @count 16 (by decide), @count 24 (by decide)]
  rw [payloadEnd, declaredSize] at complete covered last
  rw [require_bind enough, require_bind (longer enough)]
  simp only [covered, last, complete, longer complete]

/-! ## Sealed bytes -/

/-- The bytes end with a digest, which stands where the header puts it and covers all the bytes before it. -/
structure Sealed (bytes : Bytes) : Prop where
  length : bytes.length = headerSize + declaredSize bytes + digestSize
  digest : bytes.drop (bytes.length - digestSize) = Sha256.digest (bytes.take (bytes.length - digestSize))

namespace Sealed

theorem complete {bytes : Bytes} (closed : Sealed bytes) : payloadEnd bytes + digestSize ≤ bytes.length :=
  Nat.le_of_eq closed.length.symm

theorem header {bytes : Bytes} (closed : Sealed bytes) : headerSize ≤ bytes.length := by
  have complete := closed.complete
  rw [payloadEnd] at complete
  omega

/-- Only with nothing behind them are sealed bytes sealed to their end. -/
theorem append_iff {bytes : Bytes} (closed : Sealed bytes) (rest : Bytes) : Sealed (bytes ++ rest) ↔ rest = [] := by
  constructor
  · intro longer
    have same := longer.length
    rw [declaredSize_append closed.header, ← closed.length, List.length_append] at same
    exact List.length_eq_zero_iff.mp (by omega)
  · rintro rfl
    rwa [List.append_nil]

end Sealed

/-- What is accepted with nothing behind the digest is sealed. -/
theorem Reads.sealed {bytes : Bytes} {container : Container} (reads : Reads bytes container)
    (whole : bytes.length = payloadEnd bytes + digestSize) : Sealed bytes where
  length := whole
  digest := by
    have start : bytes.length - digestSize = payloadEnd bytes := by omega
    have last : slice bytes (payloadEnd bytes) digestSize = bytes.drop (payloadEnd bytes) :=
      List.take_of_length_le (by rw [List.length_drop]; omega)
    rw [start, reads.digest, last]

/-- What is written is sealed. -/
theorem sealed_toBytesWith (container : Container) {payload : Bytes} (small : payload.length < 2 ^ 64) :
    Sealed (container.toBytesWith payload) := by
  have placed : payloadEnd (container.toBytesWith payload) = (container.bodyWith payload).length :=
    payloadEnd_body_append container small _
  have length := container.length_toBytesWith payload
  refine ⟨length.trans (congrArg (· + digestSize) placed.symm), ?_⟩
  rw [length, Nat.add_sub_cancel, toBytesWith, List.drop_left, List.take_left]

/-- The bytes that are accepted are those of a sealed container and any bytes after it. These change nothing that is
read, and with any of them the bytes are no longer sealed to their end. -/
theorem accepted_iff_sealed_first (bytes : Bytes) (container : Container) :
    (ofBytes bytes = .ok container ↔ ∃ file rest, bytes = file ++ rest ∧ Sealed file ∧ ofBytes file = .ok container) ∧
    ∀ file rest, Sealed file → ofBytes (file ++ rest) = ofBytes file ∧ (Sealed (file ++ rest) ↔ rest = []) := by
  have appended (file rest : Bytes) (closed : Sealed file) : ofBytes (file ++ rest) = ofBytes file :=
    ofBytes_append closed.complete rest
  refine ⟨⟨fun accepted => ?_, ?_⟩, fun file rest closed => ⟨appended file rest closed, closed.append_iff rest⟩⟩
  · obtain ⟨file, rest, rfl, length⟩ : ∃ file rest, bytes = file ++ rest ∧
      file.length = payloadEnd bytes + digestSize :=
      ⟨_, _, (List.take_append_drop (payloadEnd bytes + digestSize) bytes).symm,
        List.length_take_of_le (ofBytes_eq_ok.mp accepted).complete⟩
    have header : headerSize ≤ file.length := by
      rw [length, payloadEnd]
      omega
    rw [payloadEnd_append header] at length
    rw [ofBytes_append (Nat.le_of_eq length.symm)] at accepted
    exact ⟨file, rest, rfl, (ofBytes_eq_ok.mp accepted).sealed length, accepted⟩
  · rintro ⟨file, rest, rfl, closed, accepted⟩
    rw [appended file rest closed, accepted]

/-- The container of the empty graph, and the same with a byte behind its digest. -/
theorem accepted_iff_sealed_first_empty :
    let file := toBytes ⟨.current, .none, .empty⟩
    Sealed file ∧ ofBytes file = .ok ⟨.current, .none, .empty⟩ ∧
      ofBytes (file ++ [0]) = .ok ⟨.current, .none, .empty⟩ ∧ ¬ Sealed (file ++ [0]) := by
  intro file
  have closed : Sealed file := sealed_toBytesWith _ (by decide +kernel)
  have accepted : ofBytes file = .ok ⟨.current, .none, .empty⟩ :=
    ofBytes_toBytesWith (by decide) (by decide +kernel) (by decide) (by decide) (by decide +kernel) rfl rfl
  obtain ⟨same, sealedIff⟩ := (accepted_iff_sealed_first file ⟨.current, .none, .empty⟩).2 file [0] closed
  exact ⟨closed, accepted, same.trans accepted, fun longer => List.cons_ne_nil _ _ (sealedIff.mp longer)⟩

end OpGraph.Container
