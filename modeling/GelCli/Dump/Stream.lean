import GelCli.Dump.Packets

/-!
# What the packet reader makes of a dump

The reader depends on the bytes it is given and not on how they are cut into reads,
so it is enough to follow it over one buffer. There, a packet is taken off the front
when its type is the expected one, and an incomplete packet is an error. The index of
the packets is a 32-bit integer: it comes back to zero after `2 ^ 32` packets, and then
a block is refused.
-/

namespace GelCli.Dump

open GelCli.Foundation

/-! ## Integers -/

theorem fromBeBytes_toBeBytes {n : Nat} (h : n < 2 ^ 32) : fromBeBytes (toBeBytes n) = n := by
  simp only [toBeBytes, fromBeBytes, List.foldl_cons, List.foldl_nil, UInt8.toNat_ofNat']
  omega

theorem toBeBytes_length (n : Nat) : (toBeBytes n).length = 4 := rfl

/-! ## Reads -/

/-- Enough bytes are there, or the end is reached. -/
theorem fill_eq (need : Nat) (buf : Bytes) {chunks : List Bytes} (h : ∀ c ∈ chunks, c ≠ []) :
    (∃ buf' chunks', fill need buf chunks = .filled buf' chunks' ∧ need ≤ buf'.length ∧
      buf' ++ chunks'.flatten = buf ++ chunks.flatten ∧ ∀ c ∈ chunks', c ≠ []) ∨
    (fill need buf chunks = .eof (buf ++ chunks.flatten) ∧
      (buf ++ chunks.flatten).length < need) := by
  induction chunks generalizing buf with
  | nil =>
      unfold fill
      by_cases hle : need ≤ buf.length
      · exact Or.inl ⟨buf, [], if_pos hle, hle, rfl, h⟩
      · refine Or.inr ⟨?_, ?_⟩
        · rw [if_neg hle, List.flatten_nil, List.append_nil]
        · rw [List.flatten_nil, List.append_nil]
          omega
  | cons chunk chunks ih =>
      unfold fill
      by_cases hle : need ≤ buf.length
      · exact Or.inl ⟨buf, chunk :: chunks, if_pos hle, hle, rfl, h⟩
      · rw [if_neg hle, if_neg (h chunk List.mem_cons_self), List.flatten_cons,
          ← List.append_assoc]
        exact ih _ fun c hc => h c (List.mem_cons_of_mem _ hc)

/-- What the reader does with all the bytes in its buffer. -/
def readAll (packetIndex : Int32) (bytes : Bytes) : PacketStream :=
  packetGenerator packetIndex bytes []

/-- One turn of the reader over one buffer. -/
def turn (packetIndex : Int32) (bytes : Bytes) : PacketStream :=
  if bytes.length < headerLen then
    if bytes = [] then ⟨[], .ok ()⟩
    else ⟨[], .error "Cannot read packet header: unexpected end of file"⟩
  else
    match packetTypeOf bytes with
    | .error error => ⟨[], .error error⟩
    | .ok packetType =>
        if packetType ≠ expectedType packetIndex then
          ⟨[], .error ("Expected type " ++ (expectedType packetIndex).debug ++ ", got " ++
            packetType.debug ++ " at packet " ++ toString packetIndex ++ ": invalid data")⟩
        else
          let len := fromBeBytes ((bytes.drop (1 + 20)).take 4)
          if bytes.length < headerLen + len then
            ⟨[], .error ("Error reading block of " ++ toString len ++
              " bytes: unexpected end of file")⟩
          else
            let rest := readAll (packetIndex + 1) (bytes.drop (headerLen + len))
            ⟨(bytes.take (headerLen + len)).drop headerLen :: rest.items, rest.ending⟩

/-- A packet header can be read off a buffer that holds it. -/
theorem header_of_prefix {buf : Bytes} (h : headerLen ≤ buf.length) (rest : Bytes) :
    packetTypeOf (buf ++ rest) = packetTypeOf buf ∧
      ((buf ++ rest).drop (1 + 20)).take 4 = (buf.drop (1 + 20)).take 4 := by
  unfold headerLen at h
  constructor
  · cases buf with
    | nil => simp at h
    | cons b buf => rfl
  · rw [List.drop_append_of_le_length (by omega), List.take_append_of_le_length]
    rw [List.length_drop]
    omega

theorem packetGenerator_turn {packetIndex : Int32} {buf : Bytes} {chunks : List Bytes}
    (h : ∀ c ∈ chunks, c ≠ []) :
    packetGenerator packetIndex buf chunks = turn packetIndex (buf ++ chunks.flatten) := by
  induction hn : (buf ++ chunks.flatten).length using Nat.strong_induction_on
    generalizing packetIndex buf chunks with
  | _ n ih =>
      rw [packetGenerator]
      split
      · next buf' hfill =>
        rcases fill_eq headerLen buf h with ⟨_, _, heq, _⟩ | ⟨heq, hlt⟩
        · rw [hfill] at heq
          cases heq
        · rw [hfill] at heq
          cases heq
          rw [turn, if_pos hlt]
      · next buf₁ chunks₁ hfill =>
        rcases fill_eq headerLen buf h with
          ⟨b, c, heq, hle, hbytes, hne⟩ | ⟨heq, _⟩
        swap
        · rw [hfill] at heq
          cases heq
        rw [hfill] at heq
        cases heq
        obtain ⟨htype, hlen⟩ := header_of_prefix hle chunks₁.flatten
        have hlong : ¬ (buf₁ ++ chunks₁.flatten).length < headerLen := by
          rw [List.length_append]
          omega
        rw [← hbytes, turn, if_neg hlong, htype]
        cases hpacket : packetTypeOf buf₁ with
        | error error => rfl
        | ok packetType =>
            simp only [hlen]
            by_cases hexpected : packetType ≠ expectedType packetIndex
            · rw [if_pos hexpected, if_pos hexpected]
            rw [if_neg hexpected, if_neg hexpected]
            generalize fromBeBytes ((buf₁.drop (1 + 20)).take 4) = len
            split
            · next _ hfill₂ =>
              rcases fill_eq (headerLen + len) buf₁ hne with
                ⟨_, _, heq, _⟩ | ⟨_, hlt⟩
              · rw [hfill₂] at heq
                cases heq
              · rw [if_pos hlt]
            · next buf₂ chunks₂ hfill₂ =>
              rcases fill_eq (headerLen + len) buf₁ hne with
                ⟨b, c, heq, hle₂, hbytes₂, hne₂⟩ | ⟨heq, _⟩
              swap
              · rw [hfill₂] at heq
                cases heq
              rw [hfill₂] at heq
              cases heq
              have hlong₂ : ¬ (buf₂ ++ chunks₂.flatten).length < headerLen + len := by
                rw [List.length_append]
                omega
              have hdrop : (buf₂ ++ chunks₂.flatten).drop (headerLen + len) =
                  buf₂.drop (headerLen + len) ++ chunks₂.flatten :=
                List.drop_append_of_le_length hle₂
              have hsmaller : (buf₂.drop (headerLen + len) ++ chunks₂.flatten).length < n := by
                rw [← hdrop, List.length_drop, hbytes₂, hbytes, hn]
                have : headerLen ≤ n := by
                  rw [← hn, ← hbytes]
                  omega
                unfold headerLen at this ⊢
                omega
              have hnone : ∀ c ∈ ([] : List Bytes), c ≠ [] := fun _ hc => absurd hc List.not_mem_nil
              rw [← hbytes₂, if_neg hlong₂, hdrop, List.take_append_of_le_length hle₂,
                ih _ hsmaller hne₂ rfl, readAll, ih _ hsmaller hnone (by simp),
                List.flatten_nil, List.append_nil]

/-- **The reads do not matter**, only the bytes. -/
theorem packets_eq {bytes : Bytes} (delivery : Delivery bytes) :
    packets delivery.chunks = readAll 0 bytes := by
  rw [packets, packetGenerator_turn delivery.ne_nil, readAll, packetGenerator_turn (by simp),
    delivery.flatten, List.flatten_nil, List.append_nil]
  rfl

theorem readAll_turn (packetIndex : Int32) (bytes : Bytes) :
    readAll packetIndex bytes = turn packetIndex bytes := by
  rw [readAll, packetGenerator_turn (by simp), List.flatten_nil, List.append_nil]

/-! ## One packet -/

variable {sha1 : Bytes → Vector UInt8 20} {packetType : PacketType} {data : Bytes}

theorem encodePacket_length :
    (encodePacket sha1 packetType data).length = headerLen + data.length := by
  simp [encodePacket, toBeBytes_length, headerLen]
  omega

theorem encodePacket_type (rest : Bytes) :
    packetTypeOf (encodePacket sha1 packetType data ++ rest) = .ok packetType := by
  cases packetType <;> rfl

theorem encodePacket_len (rest : Bytes) :
    ((encodePacket sha1 packetType data ++ rest).drop (1 + 20)).take 4 = toBeBytes data.length := by
  have hdigest : (packetType.tag :: (sha1 data).toList).length = 1 + 20 := by
    simp
  rw [encodePacket, List.append_assoc, List.append_assoc, ← hdigest, List.drop_left]
  rfl

/-- The header of the packet and its data. -/
theorem encodePacket_data :
    (encodePacket sha1 packetType data).drop headerLen = data := by
  have hheader : (packetType.tag :: (sha1 data).toList ++ toBeBytes data.length).length =
      headerLen := by
    simp [toBeBytes_length, headerLen]
  rw [encodePacket, ← hheader, List.drop_left]

variable (sha1 packetType) in
/-- A whole packet is taken off the front if its type is the expected one. -/
theorem readAll_packet (hdata : data.length < 2 ^ 32) (packetIndex : Int32) (rest : Bytes) :
    (packetType = expectedType packetIndex →
      readAll packetIndex (encodePacket sha1 packetType data ++ rest) =
        ⟨data :: (readAll (packetIndex + 1) rest).items,
          (readAll (packetIndex + 1) rest).ending⟩) ∧
    (packetType ≠ expectedType packetIndex →
      ∃ error, readAll packetIndex (encodePacket sha1 packetType data ++ rest) =
        ⟨[], .error error⟩) := by
  have hlength : ∀ n, n ≤ headerLen + data.length →
      ¬ (encodePacket sha1 packetType data ++ rest).length < n := by
    intro n hn
    rw [List.length_append, encodePacket_length]
    omega
  rw [readAll_turn, turn, if_neg (hlength _ (Nat.le_add_right _ _))]
  simp only [encodePacket_type, encodePacket_len, fromBeBytes_toBeBytes hdata]
  constructor
  · intro htype
    rw [if_neg (not_not.mpr htype), if_neg (hlength _ (Nat.le_refl _)),
      List.drop_left' encodePacket_length, List.take_left' encodePacket_length, encodePacket_data]
  · intro htype
    rw [if_pos htype]
    exact ⟨_, rfl⟩

/-- A packet that is cut off is an error. -/
theorem readAll_cut {part : Bytes} (hdata : data.length < 2 ^ 32)
    (hstart : part <+: encodePacket sha1 packetType data) (hne : part ≠ [])
    (hcut : part ≠ encodePacket sha1 packetType data) (packetIndex : Int32) :
    ∃ error, (readAll packetIndex part).ending = .error error := by
  obtain ⟨missing, hwhole⟩ := hstart
  have hshort : part.length < headerLen + data.length := by
    have hpos : missing ≠ [] := by
      rintro rfl
      exact hcut ((List.append_nil part).symm.trans hwhole)
    have hlen := congrArg List.length hwhole
    rw [List.length_append, encodePacket_length] at hlen
    have := List.length_pos_iff.mpr hpos
    omega
  rw [readAll_turn, turn]
  split
  · exact ⟨_, rfl⟩
  · next hlong =>
    have hle : headerLen ≤ part.length := Nat.le_of_not_lt hlong
    obtain ⟨htype, hlen⟩ := header_of_prefix hle missing
    rw [hwhole] at htype hlen
    rw [← htype, ← hlen, ← List.append_nil (encodePacket sha1 packetType data)]
    simp only [encodePacket_type, encodePacket_len, fromBeBytes_toBeBytes hdata]
    split
    · exact ⟨_, rfl⟩
    · exact ⟨_, rfl⟩

/-! ## All packets of a dump -/

theorem readAll_nil (packetIndex : Int32) : readAll packetIndex [] = ⟨[], .ok ()⟩ := by
  rw [readAll_turn, turn]
  rfl

theorem expectedType_ofNat (k : Nat) :
    expectedType (Int32.ofNat k) = if k % 2 ^ 32 = 0 then .header else .block := by
  have hzero : Int32.ofNat k = 0 ↔ k % 2 ^ 32 = 0 := by
    rw [← Int32.toBitVec_inj, ← BitVec.toNat_inj]
    simp
  simp only [expectedType, hzero]

theorem ofNat_succ (k : Nat) : Int32.ofNat k + 1 = Int32.ofNat (k + 1) := by
  rw [← Int32.toBitVec_inj, ← BitVec.toNat_inj]
  simp

variable (sha1) in
/-- The blocks behind the header, while the index has not come round. -/
theorem readAll_blocks {blocks : List Bytes} (hblocks : ∀ b ∈ blocks, b.length < 2 ^ 32) {k : Nat}
    (hk : 1 ≤ k) (hk' : k ≤ 2 ^ 32) :
    (k + blocks.length ≤ 2 ^ 32 →
      readAll (Int32.ofNat k) (blocks.map (encodePacket sha1 .block)).flatten =
        ⟨blocks, .ok ()⟩) ∧
    (2 ^ 32 < k + blocks.length →
      ∃ error, (readAll (Int32.ofNat k) (blocks.map (encodePacket sha1 .block)).flatten).ending =
        .error error) := by
  induction blocks generalizing k with
  | nil =>
      refine ⟨fun _ => readAll_nil _, fun h => ?_⟩
      rw [List.length_nil] at h
      omega
  | cons block blocks ih =>
      obtain ⟨htaken, hrefused⟩ := readAll_packet sha1 .block
        (hblocks block List.mem_cons_self) (Int32.ofNat k)
        (blocks.map (encodePacket sha1 .block)).flatten
      rw [List.map_cons, List.flatten_cons, List.length_cons]
      by_cases hlast : k = 2 ^ 32
      · -- the index is zero again, and a header is expected
        have htype : PacketType.block ≠ expectedType (Int32.ofNat k) := by
          rw [expectedType_ofNat, hlast]
          decide
        obtain ⟨error, herror⟩ := hrefused htype
        refine ⟨fun h => by omega, fun _ => ⟨error, by rw [herror]⟩⟩
      · have htype : PacketType.block = expectedType (Int32.ofNat k) := by
          rw [expectedType_ofNat, if_neg (by omega)]
        obtain ⟨hok, herr⟩ := ih (fun b hb => hblocks b (List.mem_cons_of_mem _ hb))
          (k := k + 1) (by omega) (by omega)
        rw [htaken htype, ofNat_succ]
        constructor
        · intro h
          rw [hok (by omega)]
        · intro h
          exact herr (by omega)

variable (sha1) in
/-- A header and blocks come back if there are fewer than `2 ^ 32` blocks, and end in an
error otherwise. -/
theorem readAll_content {content : Content} (hheader : content.header.length < 2 ^ 32)
    (hblocks : ∀ b ∈ content.blocks, b.length < 2 ^ 32) :
    (content.blocks.length < 2 ^ 32 →
      readAll 0 (content.packets sha1).flatten = ⟨content.header :: content.blocks, .ok ()⟩) ∧
    (2 ^ 32 ≤ content.blocks.length →
      ∃ error, (readAll 0 (content.packets sha1).flatten).ending = .error error) := by
  obtain ⟨htaken, _⟩ := readAll_packet sha1 .header hheader 0
    (content.blocks.map (encodePacket sha1 .block)).flatten
  obtain ⟨hok, herr⟩ := readAll_blocks sha1 hblocks (k := 1) (by omega) (by omega)
  have hone : (0 : Int32) + 1 = Int32.ofNat 1 := rfl
  rw [Content.packets, List.flatten_cons, htaken rfl, hone]
  constructor
  · intro h
    rw [hok (by omega)]
  · intro h
    exact herr (by omega)

/-- Whole packets and a part of one more. -/
theorem readAll_cut_stream {before : List Bytes} {part : Bytes}
    (hbefore : ∀ p ∈ before, ∃ t d, d.length < 2 ^ 32 ∧ p = encodePacket sha1 t d)
    (hdata : data.length < 2 ^ 32) (hstart : part <+: encodePacket sha1 packetType data)
    (hne : part ≠ []) (hcut : part ≠ encodePacket sha1 packetType data) (packetIndex : Int32) :
    ∃ error, (readAll packetIndex (before.flatten ++ part)).ending = .error error := by
  induction before generalizing packetIndex with
  | nil => exact readAll_cut hdata hstart hne hcut packetIndex
  | cons p before ih =>
      obtain ⟨t, d, hd, rfl⟩ := hbefore p List.mem_cons_self
      obtain ⟨htaken, hrefused⟩ := readAll_packet sha1 t hd packetIndex
        (before.flatten ++ part)
      rw [List.flatten_cons, List.append_assoc]
      by_cases htype : t = expectedType packetIndex
      · rw [htaken htype]
        exact ih (fun p hp => hbefore p (List.mem_cons_of_mem _ hp)) _
      · obtain ⟨error, herror⟩ := hrefused htype
        exact ⟨error, by rw [herror]⟩

end GelCli.Dump
