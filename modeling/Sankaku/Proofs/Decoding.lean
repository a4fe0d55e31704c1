import Sankaku.Proofs.SenderSpec

namespace Sankaku
open Erasure

variable {W : Wirehair}

def DataHeader.geometry (h : DataHeader) : Geometry where
  messageBytes := UInt64.ofNat h.totalSize.toNat
  blockBytes := UInt32.ofNat h.pktSize.toNat

theorem geometry_count (h : DataHeader) :
    h.geometry.count = divCeil h.totalSize.toNat h.pktSize.toNat := by
  have htotal := h.totalSize.toNat_lt
  have hpkt := h.pktSize.toNat_lt
  rw [Geometry.count, DataHeader.geometry, UInt64.toNat_ofNat', UInt32.toNat_ofNat',
    Nat.mod_eq_of_lt (by omega), Nat.mod_eq_of_lt (by omega)]

/-- A stream's decoder, made for this geometry, that has taken these droplets
and asked for more each time. -/
structure DecoderState.Taken (ds : DecoderState W) (g : Geometry) (xs : List (UInt32 × Bytes)) :
    Prop where
  messageSize : ds.decoder.messageSize = g.messageBytes
  packetSize : ds.decoder.packetSize = g.blockBytes
  fed : ∃ d₀, W.code.create g = some d₀ ∧ W.code.feed d₀ xs = some ds.decoder.inner

theorem decoder_new_ok (h : WirehairDecoder.new W m b = .ok d) :
    W.decoderCreate m b = some d.inner ∧ d.messageSize = m ∧ d.packetSize = b := by
  unfold WirehairDecoder.new at h
  split at h
  · cases h
  split at h
  · cases h
  split at h
  · cases h
  · rename_i codec hc
    cases h
    exact ⟨hc, rfl, rfl⟩

/-- Within the wrapper's bounds the codec decides. -/
theorem decoder_new_create (message : 0 < m.toNat ∧ m.toNat ≤ maxWirehairMessageBytes)
    (packet : 0 < b.toNat ∧ b.toNat ≤ maxWirehairPacketBytes.toNat)
    (hc : W.decoderCreate m b = some d) : WirehairDecoder.new W m b = .ok ⟨d, m, b⟩ := by
  have hm : m ≠ 0 := fun h => by simp [h] at message
  have hb : b ≠ 0 := fun h => by simp [h] at packet
  have hmax : ¬ b > maxWirehairPacketBytes := by
    rw [gt_iff_lt, UInt32.lt_iff_toNat_lt]
    omega
  rw [WirehairDecoder.new, if_neg (by simp [hm, message.2]), if_neg (by simp [hb, hmax]), hc]

/-- A decoder made for a packet has the packet's geometry and took nothing yet. -/
theorem openDecoder_taken {h : DataHeader} {st : StreamState W} (ho : openDecoder h st = .ok ds) :
    ds.frameIndex = h.frameIndex ∧ (st.decoderState = some ds ∨
      (st.decoderState.filter (fun d => d.frameIndex = h.frameIndex) = none ∧
        ds.Taken h.geometry [])) := by
  obtain ⟨hframe, hold | ⟨hnone, _, hnew⟩⟩ := openDecoder_cases ho
  · exact ⟨hframe, .inl hold⟩
  · obtain ⟨hc, hm, hb⟩ := decoder_new_ok hnew
    exact ⟨hframe, .inr ⟨hnone, hm, hb, ds.decoder.inner, hc, rfl⟩⟩

/-- The wrapper's verdicts are the codec's. -/
theorem decode_verdict {d d' : WirehairDecoder W} (h : d.decode seqId data = (.ok complete, d')) :
    W.code.decode d.inner seqId data = (if complete then .success else .needMore, d'.inner) ∧
      d'.messageSize = d.messageSize ∧ d'.packetSize = d.packetSize := by
  unfold WirehairDecoder.decode at h
  split at h
  · cases h
  · split at h
    · rename_i inner hd
      cases h
      simp [Wirehair.code, hd, WirehairResult.verdict]
    · rename_i inner hd
      cases h
      simp [Wirehair.code, hd, WirehairResult.verdict]
    · cases h

/-- On a droplet the wrapper lets through, its verdicts are the codec's. -/
theorem decode_waiting {d d' : W.Decoder} (hne : s ≠ []) (hle : s.length ≤ b.toNat)
    (hd : W.code.decode d i s = (.needMore, d')) :
    (⟨d, m, b⟩ : WirehairDecoder W).decode i s = (.ok false, ⟨d', m, b⟩) := by
  have hguard : ¬ (s.isEmpty = true ∨ s.length > b.toNat) := by simp [hne, hle]
  rw [WirehairDecoder.decode, if_neg hguard]
  simp only [Wirehair.code, Prod.mk.injEq] at hd
  cases hw : W.decode d i s with
  | mk result inner => cases result <;> simp_all [WirehairResult.verdict]

theorem decode_complete {d d' : W.Decoder} (hne : s ≠ []) (hle : s.length ≤ b.toNat)
    (hd : W.code.decode d i s = (.success, d')) :
    (⟨d, m, b⟩ : WirehairDecoder W).decode i s = (.ok true, ⟨d', m, b⟩) := by
  have hguard : ¬ (s.isEmpty = true ∨ s.length > b.toNat) := by simp [hne, hle]
  rw [WirehairDecoder.decode, if_neg hguard]
  simp only [Wirehair.code, Prod.mk.injEq] at hd
  cases hw : W.decode d i s with
  | mk result inner => cases result <;> simp_all [WirehairResult.verdict]

theorem DecoderState.Taken.waiting {ds : DecoderState W} (h : ds.Taken g xs)
    (hd : ds.decoder.decode seqId data = (.ok false, d)) :
    ({ ds with decoder := d } : DecoderState W).Taken g (xs ++ [(seqId, data)]) := by
  obtain ⟨hv, hm, hp⟩ := decode_verdict hd
  obtain ⟨d₀, hc, hf⟩ := h.fed
  refine ⟨hm.trans h.messageSize, hp.trans h.packetSize, d₀, hc, ?_⟩
  rw [Code.feed_append, hf, Option.bind_some, Code.feed_cons _ hv]
  rfl

/-- A thrifty codec succeeds on no fewer droplets than the block has chunks. -/
theorem DecoderState.Taken.enough (thrifty : W.Thrifty) {ds : DecoderState W} (h : ds.Taken g xs)
    (hd : ds.decoder.decode seqId data = (.ok true, d)) : g.count ≤ xs.length + 1 := by
  obtain ⟨d₀, hc, hf⟩ := h.fed
  exact thrifty g xs d₀ _ seqId data d.inner hc hf (decode_verdict hd).1

theorem recover_code {d : WirehairDecoder W} (h : d.messageSize = g.messageBytes) (b : Bytes) :
    d.recover = .ok b ↔ W.code.recover g d.inner = some b := by
  unfold WirehairDecoder.recover Wirehair.code
  rw [h]
  simp only
  cases W.recover d.inner g.messageBytes with
  | mk result output => cases result <;> simp

/-- A droplet on the link is one of the codec's, once cut back to `pkt_size`. -/
theorem CarriesBlock.droplet {h : DataHeader}
    (hc : CarriesBlock W block sid h (dataDatagram sid h body))
    (admitted : Admitted env h body payload) : W.IsDroplet h.geometry block h.seqId payload := by
  obtain ⟨hsize, e, k, he, hpos, hle, hp⟩ := hc
  have hbody : body = W.encode e h.seqId (UInt32.ofNat h.pktSize.toNat) ++ List.replicate k 0 := by
    have := congrArg (fun p => p.drop dataPrefixSize) hp
    simpa using this
  have htotal := h.totalSize.toNat_lt
  have hpkt := h.pktSize.toNat_lt
  have hblock : (UInt32.ofNat h.pktSize.toNat).toNat = h.pktSize.toNat := by
    rw [UInt32.toNat_ofNat', Nat.mod_eq_of_lt (by omega)]
  refine ⟨?_, ?_, e, min k (h.pktSize.toNat - (W.encode e h.seqId
    (UInt32.ofNat h.pktSize.toNat)).length), he, hpos, ?_⟩
  · rw [DataHeader.geometry, UInt64.toNat_ofNat', Nat.mod_eq_of_lt (by omega), hsize]
  · rw [admitted.payload.1, List.length_take, DataHeader.geometry, hblock]
    exact Nat.min_le_left _ _
  · rw [admitted.payload.1, hbody, List.take_append, List.take_of_length_le hle,
      List.take_replicate, Nat.min_comm]
    rfl

/-- A decoder that took droplets of one block only, under the block's geometry. -/
structure DecoderState.FedBlock (ds : DecoderState W) (g : Geometry) (block : Bytes)
    (xs : List (UInt32 × Bytes)) : Prop where
  taken : ds.Taken g xs
  droplets : ∀ x ∈ xs, W.IsDroplet g block x.1 x.2

theorem DecoderState.FedBlock.code {ds : DecoderState W} (h : ds.FedBlock g block xs) :
    Fed W.code W.IsDroplet g block xs ds.decoder.inner :=
  ⟨h.taken.fed, h.droplets⟩

theorem DecoderState.FedBlock.waiting {ds : DecoderState W} (h : ds.FedBlock g block xs)
    (hs : W.IsDroplet g block seqId data)
    (hd : ds.decoder.decode seqId data = (.ok false, d)) :
    ({ ds with decoder := d } : DecoderState W).FedBlock g block (xs ++ [(seqId, data)]) := by
  refine ⟨h.taken.waiting hd, fun x hx => ?_⟩
  rcases List.mem_append.mp hx with hx | hx
  · exact h.droplets x hx
  · rw [List.mem_singleton.mp hx]
    exact hs

/-- A sound codec that reports success on such a decoder recovers the block. -/
theorem DecoderState.FedBlock.recovers (sound : W.Sound) {ds : DecoderState W}
    (h : ds.FedBlock g block xs) (hs : W.IsDroplet g block seqId data)
    (hd : ds.decoder.decode seqId data = (.ok true, d)) : d.recover = .ok block := by
  obtain ⟨hv, hm, _⟩ := decode_verdict hd
  exact (recover_code (hm.trans h.taken.messageSize) block).mpr
    (sound g block xs ds.decoder.inner seqId data d.inner h.code hs hv)

end Sankaku
