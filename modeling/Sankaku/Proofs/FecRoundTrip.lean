import Sankaku.Proofs.Decoding
import Sankaku.Proofs.WirehairMeets

namespace Sankaku

section
variable {W : Wirehair} {message : Bytes} {packetSize : UInt32}

/-- The answers to packets that are decoded one after the other. -/
def WirehairDecoder.decodeAll (d : WirehairDecoder W) :
    List (UInt32 × Bytes) → List (Except FecError Bool) × WirehairDecoder W
  | [] => ([], d)
  | x :: xs =>
    let (answer, d) := d.decode x.1 x.2
    let (answers, d) := d.decodeAll xs
    (answer :: answers, d)

/-- Whether packets are those of an encoder, with zeros behind them where they are
short. -/
def WirehairEncoder.Sends (e : WirehairEncoder W) (packets : List (UInt32 × Bytes)) : Prop :=
  ∀ x ∈ packets, ∃ written k, e.encode x.1 = .ok written ∧
    x.2 = written ++ List.replicate k 0 ∧ x.2.length ≤ e.packetSize.toNat

theorem WirehairDecoder.decodeAll_append (d : WirehairDecoder W) (xs ys : List (UInt32 × Bytes)) :
    d.decodeAll (xs ++ ys) =
      ((d.decodeAll xs).1 ++ ((d.decodeAll xs).2.decodeAll ys).1,
        ((d.decodeAll xs).2.decodeAll ys).2) := by
  induction xs generalizing d with
  | nil => rfl
  | cons x xs ih =>
    simp only [List.cons_append, decodeAll, ih]

theorem WirehairDecoder.decodeAll_feed {inner inner' : W.Decoder}
    (hsized : ∀ x ∈ xs, x.2 ≠ [] ∧ x.2.length ≤ packetSize.toNat)
    (h : W.code.feed inner xs = some inner') :
    (⟨inner, m, packetSize⟩ : WirehairDecoder W).decodeAll xs =
      (List.replicate xs.length (.ok false), ⟨inner', m, packetSize⟩) := by
  induction xs generalizing inner with
  | nil => cases h; rfl
  | cons x xs ih =>
    obtain ⟨inner1, hdecode, hrest⟩ := Erasure.Code.feed_cons_some _ h
    obtain ⟨hne, hle⟩ := hsized x List.mem_cons_self
    rw [decodeAll, decode_waiting hne hle hdecode, List.length_cons, List.replicate_succ]
    dsimp only
    rw [ih (fun y hy => hsized y (List.mem_cons_of_mem x hy)) hrest]

theorem WirehairEncoder.new_sized {e : WirehairEncoder W}
    (h : WirehairEncoder.new W message packetSize = .ok e) :
    (0 < message.length ∧ message.length ≤ maxWirehairMessageBytes) ∧
      0 < packetSize.toNat ∧ packetSize.toNat ≤ maxWirehairPacketBytes.toNat := by
  rw [WirehairEncoder.new] at h
  split at h
  · cases h
  rename_i hmessage
  split at h
  · cases h
  rename_i hpacket
  obtain ⟨hzero, hmax⟩ := not_or.mp hpacket
  rw [List.isEmpty_iff_length_eq_zero] at hmessage
  refine ⟨by omega, Nat.pos_of_ne_zero fun hz => hzero (UInt32.toNat_inj.mp hz), ?_⟩
  exact UInt32.le_iff_toNat_le.mp (UInt32.not_lt.mp hmax)

theorem WirehairEncoder.encode_written {e : WirehairEncoder W}
    (h : e.encode blockId = .ok written) :
    written = W.encode e.inner blockId e.packetSize ∧ 0 < written.length := by
  rw [WirehairEncoder.encode, Wirehair.wirehairEncode] at h
  split at h
  · rename_i heq
    split at heq
    · cases heq
    · rename_i hsome
      obtain ⟨_, rfl⟩ := Prod.mk.inj heq
      split at h
      · cases h
      · cases h
        exact ⟨rfl, Nat.pos_of_ne_zero hsome⟩
  · cases h

/-- What an encoder sends are droplets. -/
theorem WirehairEncoder.Sends.droplet {e : WirehairEncoder W}
    (hnew : WirehairEncoder.new W message packetSize = .ok e) (h : e.Sends packets)
    (hx : x ∈ packets) :
    W.IsDroplet ⟨UInt64.ofNat message.length, packetSize⟩ message x.1 x.2 ∧ x.2 ≠ [] := by
  obtain ⟨hmessage, _⟩ := WirehairEncoder.new_sized hnew
  obtain ⟨hcreate, hsize⟩ := SankakuSender.encoder_new_ok hnew
  obtain ⟨written, k, hencode, hdata, hle⟩ := h x hx
  obtain ⟨rfl, hpos⟩ := WirehairEncoder.encode_written hencode
  have hlimit : maxWirehairMessageBytes = 64 * 1024 * 1024 := rfl
  rw [hsize] at hle hdata hpos
  refine ⟨⟨?_, hle, e.inner, k, hcreate, hpos, hdata⟩, fun hnil => ?_⟩
  · show message.length = (UInt64.ofNat message.length).toNat
    rw [UInt64.toNat_ofNat', Nat.mod_eq_of_lt (by omega)]
  · have := congrArg List.length (hdata.symm.trans hnil)
    rw [List.length_append, List.length_nil] at this
    omega

end

/-- The packets of all the original blocks, each once and in any order: a decoder
can be made, says that the message is complete at the last of them and not before,
and recovers the message. -/
theorem recovers_in_any_order {P : Platform} {E : Elimination} {message : Bytes}
    {packetSize : UInt32} {e : WirehairEncoder (wirehairCodec P E)}
    {packets : List (UInt32 × Bytes)}
    (hnew : WirehairEncoder.new (wirehairCodec P E) message packetSize = .ok e)
    (hcount : divCeil message.length packetSize.toNat < 2 ^ 16)
    (hids : (packets.map Prod.fst).Perm
      ((List.range (divCeil message.length packetSize.toNat)).map UInt32.ofNat))
    (hsends : e.Sends packets) :
    ∃ d d' : WirehairDecoder (wirehairCodec P E),
      WirehairDecoder.new _ (UInt64.ofNat message.length) packetSize = .ok d ∧
      d.decodeAll packets =
        (List.replicate (divCeil message.length packetSize.toNat - 1) (.ok false) ++ [.ok true],
          d') ∧
      d'.recover = .ok message := by
  obtain ⟨hmessage, hpos, hmax⟩ := WirehairEncoder.new_sized hnew
  have hlimit : maxWirehairMessageBytes = 64 * 1024 * 1024 := rfl
  have htoNat : (UInt64.ofNat message.length).toNat = message.length := by
    rw [UInt64.toNat_ofNat', Nat.mod_eq_of_lt (by omega)]
  have hlength := hids.length_eq
  rw [List.length_map, List.length_map, List.length_range] at hlength
  have hsome : packets ≠ [] := by
    rintro rfl
    have hone : 0 < divCeil message.length packetSize.toNat := Nat.div_pos (by omega) hpos
    rw [← hlength] at hone
    exact absurd hone (Nat.lt_irrefl 0)
  obtain ⟨xs, ⟨i, s⟩, rfl⟩ : ∃ xs x, packets = xs ++ [x] :=
    ⟨_, _, (List.dropLast_append_getLast hsome).symm⟩
  rw [List.map_append, List.map_singleton] at hids
  have hdroplet := fun x hx => hsends.droplet (x := x) hnew hx
  have hlast := hdroplet (i, s) (List.mem_append_right _ (List.mem_singleton_self _))
  have hfirst := fun x hx => hdroplet x (List.mem_append_left _ hx)
  have hg : Geometry.Kept ⟨UInt64.ofNat message.length, packetSize⟩ := by
    refine ⟨?_, by rw [htoNat]; omega⟩
    rw [Geometry.count, htoNat]
    exact hcount
  obtain ⟨d₀, d, d', hcreate, hfeed, hdecode, hrecover⟩ := recovers_originals hg
    (by rw [Geometry.count, htoNat]; exact hids) (fun x hx => (hfirst x hx).1) hlast.1
  refine ⟨⟨d₀, _, packetSize⟩, ⟨d', UInt64.ofNat message.length, packetSize⟩,
    decoder_new_create (by rw [htoNat]; exact hmessage) ⟨hpos, hmax⟩ hcreate, ?_, ?_⟩
  · rw [WirehairDecoder.decodeAll_append,
      WirehairDecoder.decodeAll_feed (fun x hx => ⟨(hfirst x hx).2, (hfirst x hx).1.2.1⟩) hfeed,
      WirehairDecoder.decodeAll, decode_complete hlast.2 hlast.1.2.1 hdecode]
    rw [List.length_append, List.length_singleton] at hlength
    rw [← hlength, Nat.add_sub_cancel]
    rfl
  · exact (recover_code (g := ⟨UInt64.ofNat message.length, packetSize⟩) rfl message).mpr hrecover

/-- An encoder's blocks are what the wrapper lets through. -/
theorem WirehairEncoder.encode_ok {P : Platform} {E : Elimination}
    {e : WirehairEncoder (wirehairCodec P E)} {c : Codec E} (h : c.Encodes P message e.packetSize)
    (hinner : e.inner = some c) (blockId : UInt32) :
    e.encode blockId = .ok (c.encode P blockId e.packetSize) ∧
      0 < (c.encode P blockId e.packetSize).length ∧
      (c.encode P blockId e.packetSize).length ≤ e.packetSize.toNat := by
  have hlength := h.encode_length blockId
  have hbounds := h.final_bounds
  have hle : 0 < (c.encode P blockId e.packetSize).length ∧
      (c.encode P blockId e.packetSize).length ≤ e.packetSize.toNat := by
    rw [hlength]
    split <;> omega
  refine ⟨?_, hle⟩
  have hwritten : (wirehairCodec P E).encode e.inner blockId e.packetSize =
      c.encode P blockId e.packetSize := by rw [hinner]; rfl
  rw [encode, Wirehair.wirehairEncode, hwritten, if_neg (Nat.ne_of_gt hle.1)]
  exact if_neg (Nat.not_lt.mpr hle.2)

theorem WirehairEncoder.new_encodes {P : Platform} {E : Elimination} {message : Bytes}
    {packetSize : UInt32} {e : WirehairEncoder (wirehairCodec P E)}
    (hnew : WirehairEncoder.new (wirehairCodec P E) message packetSize = .ok e) :
    ∃ c : Codec E, e.inner = some c ∧ c.Encodes P message e.packetSize := by
  obtain ⟨hcreate, hsize⟩ := SankakuSender.encoder_new_ok hnew
  rw [hsize]
  exact Codec.encoderCreate_encodes hcreate

/-- Nine bytes in five blocks. -/
theorem nine_bytes_new : ∃ e, WirehairEncoder.new (wirehairCodec .plain .blind)
    [1, 2, 3, 4, 5, 6, 7, 8, 9] 2 = .ok e := by
  have hok : (WirehairEncoder.new (wirehairCodec .plain .blind)
    [1, 2, 3, 4, 5, 6, 7, 8, 9] 2).isOk = true := by decide +kernel
  cases hnew : WirehairEncoder.new (wirehairCodec .plain .blind) [1, 2, 3, 4, 5, 6, 7, 8, 9] 2 with
  | ok e => exact ⟨e, rfl⟩
  | error why =>
    rw [hnew] at hok
    cases hok

theorem recovers_in_any_order_five :
    ∃ (e : WirehairEncoder (wirehairCodec .plain .blind)) (packets : List (UInt32 × Bytes)),
      WirehairEncoder.new _ [1, 2, 3, 4, 5, 6, 7, 8, 9] 2 = .ok e ∧
      packets.map Prod.fst = [3, 0, 4, 2, 1] ∧ e.Sends packets ∧
      ∃ d d' : WirehairDecoder (wirehairCodec .plain .blind),
        WirehairDecoder.new _ (UInt64.ofNat 9) 2 = .ok d ∧
        d.decodeAll packets = (List.replicate (5 - 1) (.ok false) ++ [.ok true], d') ∧
        d'.recover = .ok [1, 2, 3, 4, 5, 6, 7, 8, 9] := by
  obtain ⟨e, hnew⟩ := nine_bytes_new
  obtain ⟨c, hinner, hencodes⟩ := WirehairEncoder.new_encodes hnew
  have hsends : e.Sends ([3, 0, 4, 2, 1].map fun id => (id, c.encode .plain id e.packetSize)) := by
    intro x hx
    obtain ⟨id, _, rfl⟩ := List.mem_map.mp hx
    obtain ⟨hencode, _, hle⟩ := WirehairEncoder.encode_ok hencodes hinner id
    exact ⟨_, 0, hencode, (List.append_nil _).symm, hle⟩
  have hids : ([3, 0, 4, 2, 1] : List UInt32).Perm ((List.range 5).map UInt32.ofNat) := by decide
  exact ⟨_, _, hnew, rfl, hsends, recovers_in_any_order hnew (by decide) hids hsends⟩

namespace Codec
variable {P : Platform} {E : Elimination} {c : Codec E} {messageBytes : UInt64} {w : UInt32}

/-- The lengths `DecodeFeed` accepts. -/
def accepts (c : Codec E) (blockId : UInt32) (bytes : Nat) : Prop :=
  if (blockId + 1).toNat = c.blockCount then c.outputFinalBytes ≤ bytes else c.blockBytes = bytes

theorem decodeFeed_refuses {blockId : UInt32} (h : ¬ c.accepts blockId s.length) :
    c.decodeFeed P blockId s = some (.invalidInput, c) := by
  rw [accepts] at h
  rw [decodeFeed]
  split at h
  · rename_i hfinal
    rw [if_pos ⟨hfinal, Nat.not_le.mp h⟩]
  · rename_i hfinal
    rw [if_neg (fun hboth => hfinal hboth.1), if_pos ⟨hfinal, h⟩]

/-- Well before there are enough rows, whatever is accepted is not enough. -/
theorem decodeFeed_waits (h : c.Collecting P messageBytes w) (hfew : c.rowCount + 1 < c.blockCount)
    {blockId : UInt32} (hs : c.accepts blockId s.length) :
    ∃ c', c.decodeFeed P blockId s = some (.needMore, c') := by
  have hsame := sameMessage_noteOriginal c blockId
  have hrows := noteOriginal_rowCount c blockId
  have hd := h.noted blockId
  rw [accepts] at hs
  rw [decodeFeed]
  have hfinal : ¬ ((blockId + 1).toNat = c.blockCount ∧ c.outputFinalBytes > s.length) := by
    rintro ⟨hfinal, hshort⟩
    rw [if_pos hfinal] at hs
    omega
  have hother : ¬ (¬ (blockId + 1).toNat = c.blockCount ∧ c.blockBytes ≠ s.length) := by
    rintro ⟨hother, hwrong⟩
    rw [if_neg hother] at hs
    exact hwrong hs
  rw [if_neg hfinal, if_neg hother]
  generalize c.noteOriginal blockId = d at *
  have hcount := hsame.blockCount
  dsimp only
  rw [hcount, hrows, if_neg (by omega), ← hrows]
  obtain ⟨taken, peel, hpeel, _⟩ := opportunisticPeeling_spec hd.wellformed.1 hd.inv blockId
  simp only [hpeel, Option.bind_eq_bind, Option.bind_some]
  cases taken with
  | false => exact ⟨_, rfl⟩
  | true =>
    refine ⟨(d.withPeel peel).takeRow (decide ((blockId + 1).toNat = c.blockCount)) s, ?_⟩
    have hmore : ((d.withPeel peel).takeRow (decide ((blockId + 1).toNat = c.blockCount)) s).rowCount ≠
        ((d.withPeel peel).takeRow (decide ((blockId + 1).toNat = c.blockCount)) s).blockCount := by
      show d.rowCount + 1 ≠ d.blockCount
      omega
    simp only [Bool.not_true, Bool.false_eq_true, if_false]
    rw [onRow, if_pos hmore]

/-- `Encode` takes the last block for one of ids cut down to 16 bits, `DecodeFeed`
does not. -/
theorem accepts_encoded {e : Codec E} {message : Bytes} (hfits : Fits message w e.blockCount)
    (he : e.Encodes P message w) (hmatrix : c.matrix = e.matrix)
    (hfinal : c.outputFinalBytes = e.inputFinalBytes) (blockId : UInt32) :
    c.accepts blockId (e.encode P blockId w).length ↔
      blockId.toNat < 2 ^ 16 ∨ blockId.toNat % 2 ^ 16 ≠ e.blockCount - 1 ∨
        message.length % w.toNat = 0 := by
  have hbytes : c.blockBytes = w.toNat := by rw [blockBytes, hmatrix, he.sizes.1]
  have hcount : c.blockCount = e.blockCount := by rw [blockCount, hmatrix, blockCount]
  have hmax := hfits.le_max
  have htwo := hfits.two_le
  have hbounds := he.final_bounds
  have hlt := blockId.toNat_lt
  have hnext : (blockId + 1).toNat = e.blockCount ↔ blockId.toNat = e.blockCount - 1 := by
    rw [UInt32.toNat_add, UInt32.toNat_one]
    omega
  have hwhole : e.inputFinalBytes = w.toNat ↔ message.length % w.toNat = 0 := by
    have := Nat.mod_lt message.length hfits.block_pos
    rw [he.final, partialFinalBytes, hfits.toNat_length]
    split <;> omega
  rw [accepts, hcount, hfinal, hbytes, he.encode_length]
  by_cases hlast : blockId.toNat = e.blockCount - 1
  · rw [if_pos (hnext.mpr hlast), if_pos (by omega)]
    exact iff_of_true (Nat.le_refl _) (Or.inl (by omega))
  · rw [if_neg (mt hnext.mp hlast)]
    split
    · rename_i hmod
      rw [eq_comm, hwhole]
      constructor
      · exact fun h => Or.inr (Or.inr h)
      · rintro (h | h | h)
        · rw [Nat.mod_eq_of_lt h] at hmod
          exact absurd hmod hlast
        · exact absurd hmod h
        · exact h
    · rename_i hmod
      exact iff_of_true rfl (Or.inr (Or.inl hmod))

end Codec

theorem WirehairDecoder.feed_decodeAll {W : Wirehair} {d d' : WirehairDecoder W}
    (h : d.decodeAll xs = (List.replicate xs.length (.ok false), d')) :
    W.code.feed d.inner xs = some d'.inner ∧ d'.messageSize = d.messageSize ∧
      d'.packetSize = d.packetSize := by
  induction xs generalizing d with
  | nil =>
    cases h
    exact ⟨rfl, rfl, rfl⟩
  | cons x xs ih =>
    rw [List.length_cons, List.replicate_succ, decodeAll] at h
    cases hdecode : d.decode x.1 x.2 with
    | mk answer d1 =>
    rw [hdecode] at h
    obtain ⟨hanswers, hd'⟩ := Prod.mk.inj h
    obtain ⟨rfl, hrest⟩ := List.cons.inj hanswers
    obtain ⟨hverdict, hm, hp⟩ := decode_verdict hdecode
    obtain ⟨hfeed, hm', hp'⟩ := ih (d := d1) (Prod.ext hrest hd')
    refine ⟨?_, hm'.trans hm, hp'.trans hp⟩
    rw [Erasure.Code.feed_cons _ hverdict]
    exact hfeed

/-- Every packet of an encoder, as it is, is taken by a decoder for the same message
that is still far from complete, but for those whose id is that of the last block
in its lower 16 bits only: they are cut to the length of the last block, and
refused. -/
theorem packet_taken_iff {P : Platform} {E : Elimination} {message : Bytes} {packetSize : UInt32}
    {e : WirehairEncoder (wirehairCodec P E)} {d d' : WirehairDecoder (wirehairCodec P E)}
    {xs : List (UInt32 × Bytes)}
    (hnew : WirehairEncoder.new (wirehairCodec P E) message packetSize = .ok e)
    (hcount : divCeil message.length packetSize.toNat < 2 ^ 16)
    (hdec : WirehairDecoder.new _ (UInt64.ofNat message.length) packetSize = .ok d)
    (hfed : d.decodeAll xs = (List.replicate xs.length (.ok false), d'))
    (hfew : xs.length + 1 < divCeil message.length packetSize.toNat) (blockId : UInt32) :
    ∃ packet, e.encode blockId = .ok packet ∧
      (d'.decode blockId packet).1 =
        if blockId.toNat < 2 ^ 16 ∨
            blockId.toNat % 2 ^ 16 ≠ divCeil message.length packetSize.toNat - 1 ∨
            message.length % packetSize.toNat = 0
        then .ok false else .error (.internal WirehairResult.invalidInput.code) := by
  obtain ⟨hmessage, _⟩ := WirehairEncoder.new_sized hnew
  have hlimit : maxWirehairMessageBytes = 64 * 1024 * 1024 := rfl
  obtain ⟨_, hsize⟩ := SankakuSender.encoder_new_ok hnew
  obtain ⟨c, hc, he⟩ := WirehairEncoder.new_encodes hnew
  obtain ⟨hencode, hpos, hle⟩ := WirehairEncoder.encode_ok he hc blockId
  rw [hsize] at he hencode hpos hle
  obtain ⟨hblocks, hfits⟩ := he.fits hcount (by omega)
  refine ⟨_, hencode, ?_⟩
  obtain ⟨hmade, _, hpacket⟩ := decoder_new_ok hdec
  obtain ⟨hfeed, _, hpacket'⟩ := WirehairDecoder.feed_decodeAll hfed
  obtain ⟨m, hm, hinner⟩ := Option.map_eq_some_iff.mp hmade
  have hmatrix : m = c.matrix := by
    rw [chosenMatrix, he.chosen] at hm
    exact (Option.some.inj hm).symm
  subst hmatrix
  obtain ⟨hcollecting, hlt⟩ := Codec.Collecting.initial (E := E) hm
  rw [← hinner] at hfeed
  obtain ⟨c', hd', husable, hsame, hrows⟩ := feed_spec (.inl ⟨hcollecting, hlt⟩) hfeed
  have hcount' : c'.blockCount = c.blockCount := hsame.blockCount
  have hrows : c'.rowCount ≤ 0 + xs.length := hrows
  have hcollecting' : c'.Collecting P (UInt64.ofNat message.length) packetSize :=
    (husable.resolve_right fun hfull => by omega).1
  have hfinal : c'.outputFinalBytes = c.inputFinalBytes :=
    hcollecting'.final.trans he.final.symm
  have haccepts := Codec.accepts_encoded hfits he hsame.matrix hfinal blockId
  have hguard : ¬ ((c.encode P blockId packetSize).isEmpty ∨
      (c.encode P blockId packetSize).length > d'.packetSize.toNat) := by
    rw [List.isEmpty_iff_length_eq_zero, hpacket', hpacket]
    omega
  have hstep : ∀ result (c2 : Codec E),
      c'.decodeFeed P blockId (c.encode P blockId packetSize) = some (result, c2) →
      (wirehairCodec P E).decode (some c') blockId (c.encode P blockId packetSize) =
        (result, some c2) := by
    intro result c2 hdecode
    simp only [wirehairCodec]
    rw [if_neg (by omega), hdecode]
  rw [hblocks] at haccepts
  split
  · rename_i hcond
    obtain ⟨c2, hwaits⟩ := Codec.decodeFeed_waits (P := P) hcollecting' (by omega)
      (haccepts.mpr hcond)
    rw [WirehairDecoder.decode, if_neg hguard, hd', hstep _ _ hwaits]
  · rename_i hcond
    rw [WirehairDecoder.decode, if_neg hguard, hd',
      hstep _ _ (Codec.decodeFeed_refuses (mt haccepts.mp hcond))]

theorem packet_taken_iff_refused :
    ∃ (e : WirehairEncoder (wirehairCodec .plain .blind))
      (d : WirehairDecoder (wirehairCodec .plain .blind)) (packet : Bytes),
      WirehairEncoder.new _ [1, 2, 3, 4, 5, 6, 7, 8, 9] 2 = .ok e ∧
      WirehairDecoder.new _ (UInt64.ofNat 9) 2 = .ok d ∧
      e.encode 65540 = .ok packet ∧ (d.decode 65540 packet).1 = .error (.internal 2) := by
  obtain ⟨e, hnew⟩ := nine_bytes_new
  have hok : (WirehairDecoder.new (wirehairCodec .plain .blind) (UInt64.ofNat 9) 2).isOk = true := by
    decide +kernel
  cases hdec : WirehairDecoder.new (wirehairCodec .plain .blind) (UInt64.ofNat 9) 2 with
  | error why =>
    rw [hdec] at hok
    cases hok
  | ok d =>
    have hnothing : d.decodeAll [] = (List.replicate 0 (.ok false), d) := rfl
    obtain ⟨packet, hencode, hdecode⟩ := packet_taken_iff hnew (by decide) hdec hnothing (by decide)
      65540
    exact ⟨e, d, packet, hnew, rfl, hencode, hdecode⟩

end Sankaku
