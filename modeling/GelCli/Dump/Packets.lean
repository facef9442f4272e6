import Mathlib.Data.List.Basic
import GelCli.Foundation.Text

/-!
# Dump files

`dump_db` in `src/commands/dump.rs` and `packet_generator` and `restore_db` in
`src/commands/restore.rs`: a dump is a fixed prefix, a header packet and block
packets, each with its type, a digest and its length; the reader takes packets from
a buffer that grows by whatever a read delivers. The digest is a parameter, which
the reader never looks at.
-/

namespace GelCli.Dump

open GelCli.Foundation

abbrev Bytes := List UInt8

/-! ## Integers -/

def fromBeBytes (bytes : Bytes) : Nat := bytes.foldl (fun n b => n * 256 + b.toNat) 0

/-- `u32::to_be_bytes`. -/
def toBeBytes (n : Nat) : Bytes :=
  [UInt8.ofNat (n / 2 ^ 24), UInt8.ofNat (n / 2 ^ 16), UInt8.ofNat (n / 2 ^ 8), UInt8.ofNat n]

/-- `i64::from_be_bytes`. -/
def fromBeBytesI64 (bytes : Bytes) : Int :=
  if fromBeBytes bytes < 2 ^ 63 then fromBeBytes bytes else (fromBeBytes bytes : Int) - 2 ^ 64

/-! ## `dump_db` -/

section Dump

variable (sha1 : Bytes → Vector UInt8 20)

inductive PacketType where
  | header
  | block
deriving DecidableEq, Repr

def PacketType.tag : PacketType → UInt8
  | .header => 0x48
  | .block => 0x44

def PacketType.debug : PacketType → String
  | .header => "Header"
  | .block => "Block"

def encodePacket (packetType : PacketType) (data : Bytes) : Bytes :=
  packetType.tag :: (sha1 data).toList ++ toBeBytes data.length ++ data

def magic : Bytes :=
  [0xFF, 0xD8, 0x00, 0x00, 0xD8, 0x45, 0x44, 0x47, 0x45, 0x44, 0x42, 0x00, 0x44, 0x55, 0x4D,
    0x50, 0x00]

def dumpVersion : Bytes := [0, 0, 0, 0, 0, 0, 0, 1]

/-- What `cli.dump` delivers. -/
structure Content where
  header : Bytes
  blocks : List Bytes
deriving DecidableEq

def Content.packets (content : Content) : List Bytes :=
  encodePacket sha1 .header content.header :: content.blocks.map (encodePacket sha1 .block)

/-- `none` is a failed assertion on a length. -/
def dumpDb (content : Content) : Option Bytes :=
  if content.header.length < 2 ^ 32 ∧ ∀ block ∈ content.blocks, block.length < 2 ^ 32 then
    some (magic ++ dumpVersion ++ (content.packets sha1).flatten)
  else none

end Dump

/-! ## `packet_generator` -/

/-- The outcome of reading until the buffer is long enough. -/
inductive Filled where
  | filled (buf : Bytes) (chunks : List Bytes)
  | eof (buf : Bytes)

/-- `while buf.len() < need`: each read delivers the next chunk, and a read of no
bytes is the end of the input. -/
def fill (need : Nat) : Bytes → List Bytes → Filled
  | buf, [] => if need ≤ buf.length then .filled buf [] else .eof buf
  | buf, chunk :: chunks =>
      if need ≤ buf.length then .filled buf (chunk :: chunks)
      else if chunk = [] then .eof buf
      else fill need (buf ++ chunk) chunks

theorem fill_filled {need : Nat} {buf buf' : Bytes} {chunks chunks' : List Bytes}
    (h : fill need buf chunks = .filled buf' chunks') :
    need ≤ buf'.length ∧ buf' ++ chunks'.flatten = buf ++ chunks.flatten := by
  induction chunks generalizing buf with
  | nil =>
      unfold fill at h
      split at h
      · next hle =>
        cases h
        exact ⟨hle, rfl⟩
      · cases h
  | cons chunk chunks ih =>
      unfold fill at h
      split at h
      · next hle =>
        cases h
        exact ⟨hle, rfl⟩
      · split at h
        · cases h
        · obtain ⟨hle, heq⟩ := ih h
          exact ⟨hle, by rw [heq, List.append_assoc, List.flatten_cons]⟩

/-- The packets emitted and how the stream ends. -/
structure PacketStream where
  items : List Bytes
  ending : Except String Unit

def headerLen : Nat := 1 + 20 + 4

def packetTypeOf (buf : Bytes) : Except String PacketType :=
  let tag := buf.headD 0
  if tag = PacketType.header.tag then .ok .header
  else if tag = PacketType.block.tag then .ok .block
  else .error ("Invalid block type " ++ String.ofList (Nat.toDigits 16 tag.toNat) ++
    ": invalid data")

def expectedType (packetIndex : Int32) : PacketType :=
  if packetIndex = 0 then .header else .block

/-- The outer loop. `packet_index` is an `i32`, as nothing gives it another type, and
wraps in a release build. -/
def packetGenerator (packetIndex : Int32) (buf : Bytes) (chunks : List Bytes) : PacketStream :=
  match _hheader : fill headerLen buf chunks with
  | .eof buf' =>
      if buf' = [] then ⟨[], .ok ()⟩
      else ⟨[], .error "Cannot read packet header: unexpected end of file"⟩
  | .filled buf₁ chunks₁ =>
      match packetTypeOf buf₁ with
      | .error error => ⟨[], .error error⟩
      | .ok packetType =>
          if packetType ≠ expectedType packetIndex then
            ⟨[], .error ("Expected type " ++ (expectedType packetIndex).debug ++ ", got " ++
              packetType.debug ++ " at packet " ++ toString packetIndex ++ ": invalid data")⟩
          else
            let len := fromBeBytes ((buf₁.drop (1 + 20)).take 4)
            match _hblock : fill (headerLen + len) buf₁ chunks₁ with
            | .eof _ =>
                ⟨[], .error ("Error reading block of " ++ toString len ++
                  " bytes: unexpected end of file")⟩
            | .filled buf₂ chunks₂ =>
                let rest := packetGenerator (packetIndex + 1) (buf₂.drop (headerLen + len)) chunks₂
                ⟨(buf₂.take (headerLen + len)).drop headerLen :: rest.items, rest.ending⟩
termination_by buf.length + chunks.flatten.length
decreasing_by
  have h₁ := congrArg List.length (fill_filled _hheader).2
  obtain ⟨hle, h₂⟩ := fill_filled _hblock
  have h₂ := congrArg List.length h₂
  simp only [List.length_append, List.length_drop, headerLen] at h₁ h₂ hle ⊢
  omega

/-- `Packets::new`. -/
def packets (chunks : List Bytes) : PacketStream := packetGenerator 0 [] chunks

/-! ## `restore_db` -/

/-- The reads of a file: chunks of any positive size. -/
structure Delivery (bytes : Bytes) where
  chunks : List Bytes
  ne_nil : ∀ chunk ∈ chunks, chunk ≠ []
  flatten : chunks.flatten = bytes

/-- One read for everything. -/
def Delivery.whole (bytes : Bytes) : Delivery bytes where
  chunks := if bytes = [] then [] else [bytes]
  ne_nil := by
    intro chunk hchunk
    split at hchunk
    · cases hchunk
    · next hne =>
      rw [List.mem_singleton.mp hchunk]
      exact hne
  flatten := by
    split
    · next h => exact h.symm
    · simp

def maxSupportedDumpVer : Int := 1

/-- The header packet and the blocks behind it. -/
def PacketStream.content (stream : PacketStream) : Except String Content :=
  match stream.items, stream.ending with
  | [], .ok () => .error "Dump is empty"
  | _, .error error => .error error
  | header :: blocks, .ok () => .ok ⟨header, blocks⟩

/-- The header and the blocks that reach the server. The first 25 bytes are read with
`read_exact`; `deliver` are the reads after them. -/
def restoreDb (path : String) (file : Bytes) (deliver : ∀ bytes, Delivery bytes) :
    Except String Content :=
  let fileCtx (error : String) : String := "Failed to read dump " ++ path ++ ": " ++ error
  if file.length < 17 + 8 then .error (fileCtx "Cannot read header: early eof")
  else if file.take 17 ≠ magic then
    .error (fileCtx "Incorrect header; file is not a dump from Gel")
  else
    let version := fromBeBytesI64 ((file.drop 17).take 8)
    if version = 0 ∨ version > maxSupportedDumpVer then
      .error (fileCtx ("Unsupported dump version " ++ toString version))
    else
      (packets (deliver (file.drop (17 + 8))).chunks).content

end GelCli.Dump
