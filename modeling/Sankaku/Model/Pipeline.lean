import Sankaku.Model.Types

namespace Sankaku

def openzlInvalidInput : Int := -1
def openzlOutputTooSmall : Int := -2
def openzlAllocationFailed : Int := -3

/-- `passthrough_process` on valid pointers: a copy, if the output buffer holds
the input. -/
def passthroughProcess (input : Bytes) (outputLen : Nat) : Except Int Bytes :=
  if outputLen < input.length then .error openzlOutputTooSmall else .ok input

def mapError (code : Int) : String :=
  if code = openzlInvalidInput then "OpenZL rejected input pointers"
  else if code = openzlOutputTooSmall then "OpenZL output buffer too small"
  else if code = openzlAllocationFailed then "OpenZL allocation failed"
  else s!"OpenZL returned error code {code}"

/-- The retry loop of `process`. A buffer that was too small grows past the
payload, so the second attempt fits. -/
def processLoop (payload : Bytes) (outputLen : Nat) : Except String Bytes :=
  match h : passthroughProcess payload outputLen with
  | .ok written => .ok written
  | .error rc =>
    if rc = openzlOutputTooSmall then
      processLoop payload (max (2 * outputLen) (payload.length + 1))
    else .error (mapError rc)
termination_by payload.length - outputLen
decreasing_by
  have : outputLen < payload.length := by
    unfold passthroughProcess at h
    split at h
    · assumption
    · cases h
  omega

def process (payload : Bytes) : Except String Bytes :=
  if payload.isEmpty then .ok [] else processLoop payload (max (2 * payload.length) 1)

inductive CompressionMode
  | disabled
  | openZlForSao
  deriving DecidableEq, Repr

def envelopeRawNal : UInt8 := 0
def envelopeRawSao : UInt8 := 1
def envelopeOpenzlSao : UInt8 := 2

structure SankakuPipeline where
  compression : CompressionMode
  graph : Bytes
  deriving DecidableEq, Repr

def SankakuPipeline.newWithConfig (compression : CompressionMode) : SankakuPipeline :=
  ⟨compression, []⟩

def SankakuPipeline.updateCompressionGraph (p : SankakuPipeline) (graph : Bytes) :
    SankakuPipeline :=
  { p with graph }

/-- The identities are taken and dropped, as in the source. -/
def SankakuPipeline.protectFrame (p : SankakuPipeline) (rawData : Bytes) (kind : VideoPayloadKind)
    (_streamId : UInt32) (_frameIndex : UInt64) : Except String Bytes :=
  match kind, p.compression with
  | .nalUnit, _ => .ok (envelopeRawNal :: rawData)
  | .saoParameters, .disabled => .ok (envelopeRawSao :: rawData)
  | .saoParameters, .openZlForSao =>
    match process rawData with
    | .ok body => .ok (envelopeOpenzlSao :: body)
    | .error _ => .error "OpenZL encode failed"

def SankakuPipeline.restoreFrame (_p : SankakuPipeline) (protectedData : Bytes)
    (_streamId : UInt32) (_frameIndex : UInt64) : Except String (VideoPayloadKind × Bytes) :=
  match protectedData with
  | [] => .error "Protected block produced empty payload"
  | mode :: body =>
    if mode = envelopeRawNal then .ok (.nalUnit, body)
    else if mode = envelopeRawSao then .ok (.saoParameters, body)
    else if mode = envelopeOpenzlSao then
      match process body with
      | .ok payload => .ok (.saoParameters, payload)
      | .error _ => .error "OpenZL decode failed"
    else .error "Unsupported pipeline envelope mode"

/-- The codec gives every payload back unchanged, whatever the buffer. -/
theorem processLoop_ok (payload : Bytes) (outputLen : Nat) :
    processLoop payload outputLen = .ok payload := by
  fun_induction processLoop payload outputLen with
  | case1 n written h =>
    unfold passthroughProcess at h
    split at h <;> cases h
    rfl
  | case2 n h ih => exact ih
  | case3 n rc h hrc =>
    unfold passthroughProcess at h
    split at h <;> cases h
    exact absurd rfl hrc

@[simp] theorem process_ok (payload : Bytes) : process payload = .ok payload := by
  unfold process
  split
  · rename_i h
    rw [List.isEmpty_iff.mp h]
  · exact processLoop_ok payload _

namespace SankakuPipeline

/-- Protection puts one byte in front, which fits the kind. -/
theorem protectFrame_ok (p : SankakuPipeline) (raw : Bytes) (kind : VideoPayloadKind)
    (s : UInt32) (f : UInt64) : ∃ mode, p.protectFrame raw kind s f = .ok (mode :: raw) ∧
      ∀ (q : SankakuPipeline) s' f', q.restoreFrame (mode :: raw) s' f' = .ok (kind, raw) := by
  unfold protectFrame
  cases kind with
  | nalUnit => exact ⟨envelopeRawNal, rfl, fun _ _ _ => rfl⟩
  | saoParameters =>
    cases p.compression with
    | disabled => exact ⟨envelopeRawSao, rfl, fun _ _ _ => rfl⟩
    | openZlForSao =>
      refine ⟨envelopeOpenzlSao, by simp, fun q s' f' => ?_⟩
      simp [restoreFrame, envelopeOpenzlSao, envelopeRawNal, envelopeRawSao]

/-- What a block restores to depends on the block alone. -/
theorem restoreFrame_block (p q : SankakuPipeline) (block : Bytes) (s s' : UInt32) (f f' : UInt64) :
    p.restoreFrame block s f = q.restoreFrame block s' f' := rfl

end SankakuPipeline

end Sankaku
