import Mathlib.Data.List.ReduceOption
import GelCli.Dump.Names
import GelCli.Dump.Stream
import GelCli.Foundation.Results

/-!
# Restore reads what dump wrote

`DumpRestores` is the round trip of a whole dump: every file read back packet by
packet, every database restored from its own file in any order of the listing, and
every file that is cut inside a packet refused. It holds exactly when no database has
`2 ^ 32` blocks or more and none has the empty name.
-/

namespace GelCli.Dump

open GelCli.Foundation

variable {url : UrlEncoding} {sha1 : Bytes → Vector UInt8 20}

/-! ## One file -/

/-- Lengths as the protocol delivers them. -/
def Content.Fits (content : Content) : Prop :=
  content.header.length < 2 ^ 32 ∧ ∀ block ∈ content.blocks, block.length < 2 ^ 32

instance (content : Content) : Decidable content.Fits := inferInstanceAs (Decidable (_ ∧ _))

def dumpFile (sha1 : Bytes → Vector UInt8 20) (content : Content) : Bytes :=
  magic ++ dumpVersion ++ (content.packets sha1).flatten

theorem dumpDb_eq {content : Content} (h : content.Fits) :
    dumpDb sha1 content = some (dumpFile sha1 content) :=
  if_pos h

/-- Behind the first 25 bytes stand the packets. -/
theorem drop_dumpFile (content : Content) :
    (dumpFile sha1 content).drop (17 + 8) = (content.packets sha1).flatten :=
  List.drop_left' (by rfl)

/-- The prefix of a dump passes the checks of `restore_db`. -/
theorem restoreDb_dumpFile {path : String} {content : Content}
    {deliver : ∀ bytes, Delivery bytes} :
    restoreDb path (dumpFile sha1 content) deliver =
      (readAll 0 (content.packets sha1).flatten).content := by
  have hlength : ¬ (dumpFile sha1 content).length < 17 + 8 := by
    rw [dumpFile, List.length_append]
    exact Nat.not_lt.mpr (Nat.le_add_right _ _)
  have hmagic : ¬ (dumpFile sha1 content).take 17 ≠ magic := by
    rw [not_not]
    rfl
  have hversion : fromBeBytesI64 (((dumpFile sha1 content).drop 17).take 8) = 1 := by
    have htake : ((dumpFile sha1 content).drop 17).take 8 = dumpVersion := by rfl
    rw [htake]
    decide
  rw [restoreDb, if_neg hlength, if_neg hmagic]
  simp only [hversion]
  rw [if_neg (by decide), drop_dumpFile, packets_eq]

theorem PacketStream.content_error {stream : PacketStream} {error : String}
    (h : stream.ending = .error error) : stream.content = .error error := by
  unfold PacketStream.content
  rw [h]
  cases stream.items <;> rfl

variable (sha1) in
/-- **One database comes back iff it has fewer than `2 ^ 32` blocks.** -/
theorem restoreDb_iff {content : Content} (hfits : content.Fits) (path : String)
    (deliver : ∀ bytes, Delivery bytes) :
    (content.blocks.length < 2 ^ 32 →
      restoreDb path (dumpFile sha1 content) deliver = .ok content) ∧
    (2 ^ 32 ≤ content.blocks.length →
      ∃ error, restoreDb path (dumpFile sha1 content) deliver = .error error) := by
  obtain ⟨hok, herr⟩ := readAll_content sha1 hfits.1 hfits.2
  constructor
  · intro h
    rw [restoreDb_dumpFile, hok h]
    rfl
  · intro h
    obtain ⟨error, hending⟩ := herr h
    rw [restoreDb_dumpFile]
    exact ⟨error, PacketStream.content_error hending⟩

/-! ## The directory -/

/-- The entry a database leaves behind. -/
def dumpEntry (url : UrlEncoding) (sha1 : Bytes → Vector UInt8 20) (database : Database) :
    Text × Bytes :=
  (dumpFileName url database.name, dumpFile sha1 database.content)

theorem dumpDatabases_eq {databases : List Database} {directory : Directory}
    (hfits : ∀ db ∈ databases, db.content.Fits) (hnames : (databases.map Database.name).Nodup)
    (hnew : ∀ db ∈ databases, dumpFileName url db.name ∉ directory.keys) :
    ∃ directory', dumpDatabases url sha1 directory databases = some directory' ∧
      directory'.items = directory.items ++ databases.map (dumpEntry url sha1) := by
  induction databases generalizing directory with
  | nil => exact ⟨directory, rfl, (List.append_nil _).symm⟩
  | cons db rest ih =>
      obtain ⟨hdb, hrest⟩ := List.nodup_cons.mp hnames
      have hitems := Dict.items_set_of_notMem (v := dumpFile sha1 db.content)
        (hnew db List.mem_cons_self)
      obtain ⟨directory', hdump, hdirectory⟩ := ih
        (fun db' hdb' => hfits db' (List.mem_cons_of_mem _ hdb')) hrest
        (by
          intro db' hdb' hmem
          rw [Dict.keys, hitems, List.map_append, List.mem_append] at hmem
          rcases hmem with hmem | hmem
          · exact hnew db' (List.mem_cons_of_mem _ hdb') hmem
          · -- two databases share no file
            have hname := dumpFileName_injective (List.mem_singleton.mp hmem)
            exact hdb (hname ▸ List.mem_map_of_mem hdb'))
      refine ⟨directory', ?_, ?_⟩
      · simp only [dumpDatabases, dumpDb_eq (hfits db List.mem_cons_self)]
        exact hdump
      · rw [hdirectory, hitems, List.append_assoc]
        rfl

theorem initFile_ne (name : Text) : dumpFileName url name ≠ "init.edgeql".toList := by
  intro h
  have hlast := congrArg List.getLast? h
  simp [dumpFileName] at hlast

variable (url sha1) in
theorem dumpAll_eq {databases : List Database} (init : Bytes)
    (hfits : ∀ db ∈ databases, db.content.Fits) (hnames : (databases.map Database.name).Nodup) :
    ∃ directory, dumpAll url sha1 init databases = some directory ∧
      directory.items =
        ("init.edgeql".toList, init) :: databases.map (dumpEntry url sha1) := by
  refine dumpDatabases_eq hfits hnames fun db _ hmem => ?_
  exact initFile_ne db.name (List.mem_singleton.mp hmem)

/-! ## Restoring the directory -/

section Restoring

variable {dir : String} {deliver : Text → ∀ bytes, Delivery bytes}

theorem restoreEntry_init (init : Bytes) :
    restoreEntry url dir deliver ("init.edgeql".toList, init) = .ok none := by
  have hext : extension "init.edgeql".toList ≠ some "dump".toList := by decide
  rw [restoreEntry, if_pos hext]
  rfl

theorem restoreEntry_nil (bytes : Bytes) :
    restoreEntry url dir deliver (dumpFileName url [], bytes) = .ok none := by
  have hext : extension (dumpFileName url []) ≠ some "dump".toList := by
    rw [extension_dumpFileName_nil]
    exact Option.some_ne_none _ ∘ Eq.symm
  rw [restoreEntry, if_pos hext]
  rfl

variable (url sha1 dir deliver) in
theorem restoreEntry_dumpEntry {db : Database} (hname : db.name ≠ []) (hfits : db.content.Fits) :
    (db.content.blocks.length < 2 ^ 32 →
      restoreEntry url dir deliver (dumpEntry url sha1 db) = .ok (some db)) ∧
    (2 ^ 32 ≤ db.content.blocks.length →
      ∃ error, restoreEntry url dir deliver (dumpEntry url sha1 db) = .error error) := by
  obtain ⟨hext, hpath⟩ := pathToDatabaseName_dumpFileName url hname
  obtain ⟨hok, herr⟩ := restoreDb_iff sha1 hfits
    (dir ++ "/" ++ String.ofList (dumpFileName url db.name)) (deliver (dumpFileName url db.name))
  rw [restoreEntry, dumpEntry]
  simp only [hext, hpath, ne_eq, not_true_eq_false, if_false]
  constructor
  · intro h
    rw [hok h]
    rfl
  · intro h
    obtain ⟨error, herror⟩ := herr h
    rw [herror]
    exact ⟨_, rfl⟩

end Restoring

/-! ## The round trip -/

/-- Dump and restore agree on these databases. -/
structure DumpRestores (url : UrlEncoding) (sha1 : Bytes → Vector UInt8 20)
    (databases : List Database) : Prop where
  /-- Every file is written, and its packets are the header and the blocks, whatever the
  reads. -/
  streamed : ∀ db ∈ databases, ∃ file, dumpDb sha1 db.content = some file ∧
    ∀ delivery : Delivery (file.drop (17 + 8)),
      packets delivery.chunks = ⟨db.content.header :: db.content.blocks, .ok ()⟩
  /-- Restoring the directory, listed in any order, restores each database from its own
  file and nothing else. -/
  restored : ∀ init, ∃ directory, dumpAll url sha1 init databases = some directory ∧
    ∀ dir deliver listing, listing.Perm directory.items →
      ∃ restored, restoreAll url dir deliver listing = .ok restored ∧
        restored.Perm databases
  /-- A file that ends inside a packet is an error. -/
  cut : ∀ db ∈ databases, ∀ before packet after part,
    db.content.packets sha1 = before ++ packet :: after →
    part <+: packet → part ≠ [] → part ≠ packet →
    ∀ delivery : Delivery (before.flatten ++ part),
      ∃ error, (packets delivery.chunks).ending = .error error

variable (sha1) in
theorem Content.packets_encoded {content : Content} (h : content.Fits) :
    ∀ p ∈ content.packets sha1, ∃ t d, d.length < 2 ^ 32 ∧ p = encodePacket sha1 t d := by
  intro p hp
  rcases List.mem_cons.mp hp with rfl | hp
  · exact ⟨.header, content.header, h.1, rfl⟩
  · obtain ⟨block, hblock, rfl⟩ := List.mem_map.mp hp
    exact ⟨.block, block, h.2 block hblock, rfl⟩

theorem packets_cut {content : Content} (hfits : content.Fits) {before after : List Bytes}
    {packet part : Bytes} (hpackets : content.packets sha1 = before ++ packet :: after)
    (hstart : part <+: packet) (hne : part ≠ []) (hcut : part ≠ packet)
    (delivery : Delivery (before.flatten ++ part)) :
    ∃ error, (packets delivery.chunks).ending = .error error := by
  have hencoded := Content.packets_encoded sha1 hfits
  rw [hpackets] at hencoded
  obtain ⟨t, d, hd, rfl⟩ := hencoded packet (List.mem_append_right _ List.mem_cons_self)
  rw [packets_eq]
  exact readAll_cut_stream (fun p hp => hencoded p (List.mem_append_left _ hp)) hd hstart hne
    hcut 0

theorem packets_dumpFile {content : Content} (hfits : content.Fits)
    (hblocks : content.blocks.length < 2 ^ 32)
    (delivery : Delivery ((dumpFile sha1 content).drop (17 + 8))) :
    packets delivery.chunks = ⟨content.header :: content.blocks, .ok ()⟩ := by
  rw [packets_eq, drop_dumpFile]
  exact (readAll_content sha1 hfits.1 hfits.2).1 hblocks

section Whole

variable {databases : List Database} (hfits : ∀ db ∈ databases, db.content.Fits)
  (hnames : (databases.map Database.name).Nodup)

include hfits

theorem restoreAll_dumpAll {directory : Directory} {init : Bytes}
    (hitems : directory.items =
      ("init.edgeql".toList, init) :: databases.map (dumpEntry url sha1))
    (hblocks : ∀ db ∈ databases, db.content.blocks.length < 2 ^ 32)
    (hnonempty : ∀ db ∈ databases, db.name ≠ [])
    {dir : String} {deliver : Text → ∀ bytes, Delivery bytes} {listing : List (Text × Bytes)}
    (hperm : listing.Perm directory.items) :
    ∃ restored, restoreAll url dir deliver listing = .ok restored ∧ restored.Perm databases := by
  let outcome (entry : Text × Bytes) : Option Database :=
    (restoreEntry url dir deliver entry).toOption.join
  have hinit : restoreEntry url dir deliver ("init.edgeql".toList, init) =
      .ok (outcome ("init.edgeql".toList, init)) := by
    simp only [outcome, restoreEntry_init]
    rfl
  have hdb : ∀ db ∈ databases, restoreEntry url dir deliver (dumpEntry url sha1 db) =
      .ok (some db) := fun db hmem =>
    (restoreEntry_dumpEntry url sha1 dir deliver (hnonempty db hmem) (hfits db hmem)).1
      (hblocks db hmem)
  have houtcome : ∀ db ∈ databases, outcome (dumpEntry url sha1 db) = some db := by
    intro db hmem
    simp only [outcome, hdb db hmem]
    rfl
  have hlisting : ∀ entry ∈ listing, restoreEntry url dir deliver entry = .ok (outcome entry) := by
    intro entry hentry
    have hmem := hperm.mem_iff.mp hentry
    rw [hitems] at hmem
    rcases List.mem_cons.mp hmem with rfl | hmem
    · exact hinit
    · obtain ⟨db, hdbs, rfl⟩ := List.mem_map.mp hmem
      rw [houtcome db hdbs]
      exact hdb db hdbs
  refine ⟨(listing.map outcome).reduceOption, by rw [restoreAll, mapM_ok hlisting]; rfl, ?_⟩
  have hall : directory.items.map outcome = none :: databases.map some := by
    rw [hitems, List.map_cons, List.map_map]
    have hnone : outcome ("init.edgeql".toList, init) = none := by
      simp only [outcome, restoreEntry_init]
      rfl
    rw [hnone]
    exact congrArg (none :: ·) (List.map_congr_left houtcome)
  have hreduced := (hperm.map outcome).filterMap id
  rw [hall] at hreduced
  simpa [List.reduceOption] using hreduced

/-- A database without a name is not restored. -/
theorem restoreAll_named {directory : Directory} {init : Bytes}
    (hitems : directory.items =
      ("init.edgeql".toList, init) :: databases.map (dumpEntry url sha1))
    {dir : String} {deliver : Text → ∀ bytes, Delivery bytes} {restored : List Database}
    (h : restoreAll url dir deliver directory.items = .ok restored) :
    ∀ db ∈ restored, db.name ≠ [] := by
  intro db hmem
  obtain ⟨outcomes, houtcomes, hreduced⟩ := bind_eq_ok.mp h
  cases hreduced
  obtain ⟨entry, hentry, hrestored⟩ :=
    exists_of_mapM_ok houtcomes (List.reduceOption_mem_iff.mp hmem)
  rw [hitems] at hentry
  rcases List.mem_cons.mp hentry with rfl | hentry
  · rw [restoreEntry_init] at hrestored
    cases hrestored
  · obtain ⟨db', hdb', rfl⟩ := List.mem_map.mp hentry
    by_cases hname : db'.name = []
    · rw [dumpEntry, hname, restoreEntry_nil] at hrestored
      cases hrestored
    · obtain ⟨hok, herr⟩ := restoreEntry_dumpEntry url sha1 dir deliver hname
        (hfits db' hdb')
      by_cases hblocks : db'.content.blocks.length < 2 ^ 32
      · rw [hok hblocks] at hrestored
        cases hrestored
        exact hname
      · obtain ⟨error, herror⟩ := herr (Nat.le_of_not_lt hblocks)
        rw [herror] at hrestored
        cases hrestored

include hnames

/-- **Restore reads what dump wrote** exactly when no database has `2 ^ 32` blocks and none
has the empty name. -/
theorem dumpRestores_iff :
    DumpRestores url sha1 databases ↔
      ∀ db ∈ databases, db.content.blocks.length < 2 ^ 32 ∧ db.name ≠ [] := by
  constructor
  · intro h db hmem
    refine ⟨?_, ?_⟩
    · obtain ⟨file, hfile, hstream⟩ := h.streamed db hmem
      rw [dumpDb_eq (hfits db hmem)] at hfile
      cases hfile
      have hwhole := hstream (Delivery.whole _)
      rw [packets_eq, drop_dumpFile] at hwhole
      by_contra hlong
      obtain ⟨error, hending⟩ := (readAll_content sha1 (hfits db hmem).1
        (hfits db hmem).2).2 (Nat.le_of_not_lt hlong)
      rw [hwhole] at hending
      cases hending
    · obtain ⟨directory, hdump, hrestores⟩ := h.restored []
      obtain ⟨directory', hdump', hitems⟩ :=
        dumpAll_eq url sha1 [] hfits hnames
      rw [hdump] at hdump'
      cases hdump'
      obtain ⟨restored, hrestored, hperm⟩ :=
        hrestores "" (fun _ => Delivery.whole) directory.items (List.Perm.refl _)
      exact restoreAll_named hfits hitems hrestored db (hperm.mem_iff.mpr hmem)
  · intro h
    refine ⟨?_, ?_, ?_⟩
    · intro db hmem
      exact ⟨_, dumpDb_eq (hfits db hmem), packets_dumpFile (hfits db hmem) (h db hmem).1⟩
    · intro init
      obtain ⟨directory, hdump, hitems⟩ :=
        dumpAll_eq url sha1 init hfits hnames
      refine ⟨directory, hdump, fun dir deliver listing hperm => ?_⟩
      exact restoreAll_dumpAll hfits hitems (fun db hmem => (h db hmem).1)
        (fun db hmem => (h db hmem).2) hperm
    · intro db hmem before packet after part hpackets hstart hne hcut delivery
      exact packets_cut (hfits db hmem) hpackets hstart hne hcut delivery

end Whole

/-! ## Percent encoding -/

def hexDigit (n : Nat) : Char := "0123456789ABCDEF".toList.getD n '0'

def encodeByte (b : UInt8) : Text :=
  if unreserved (Char.ofNat b.toNat) then [Char.ofNat b.toNat]
  else ['%', hexDigit (b.toNat / 16), hexDigit (b.toNat % 16)]

/-- The bytes of an encoded text. -/
def decodeBytes : Text → Bytes
  | '%' :: hi :: lo :: rest =>
      UInt8.ofNat ("0123456789ABCDEF".toList.idxOf hi * 16 +
        "0123456789ABCDEF".toList.idxOf lo) :: decodeBytes rest
  | c :: rest => Text.utf8 [c] ++ decodeBytes rest
  | [] => []

theorem decodeBytes_encodeByte (b : UInt8) (rest : Text) :
    decodeBytes (encodeByte b ++ rest) = b :: decodeBytes rest := by
  have hplain : ∀ n : Fin 256, unreserved (Char.ofNat n) →
      Char.ofNat n ≠ '%' ∧ Text.utf8 [Char.ofNat n] = [UInt8.ofNat n] := by decide +kernel
  have hescaped : ∀ n : Fin 256, UInt8.ofNat
      ("0123456789ABCDEF".toList.idxOf (hexDigit (n / 16)) * 16 +
        "0123456789ABCDEF".toList.idxOf (hexDigit (n % 16))) = UInt8.ofNat n := by decide +kernel
  have hb : UInt8.ofNat b.toNat = b := UInt8.ofNat_toNat
  unfold encodeByte
  split
  · next hu =>
    obtain ⟨hne, hutf8⟩ := hplain ⟨b.toNat, b.toNat_lt⟩ hu
    simp only at hne hutf8
    rw [List.singleton_append, decodeBytes.eq_2, hutf8, hb]
    · rfl
    · intro hi lo rest' heq
      exact absurd heq hne
  · have hbyte := hescaped ⟨b.toNat, b.toNat_lt⟩
    simp only [hb] at hbyte
    show UInt8.ofNat _ :: decodeBytes rest = _
    rw [hbyte]

theorem decodeBytes_flatMap (bytes : Bytes) : decodeBytes (bytes.flatMap encodeByte) = bytes := by
  induction bytes with
  | nil => rfl
  | cons b bytes ih => rw [List.flatMap_cons, decodeBytes_encodeByte, ih]

theorem encodeByte_chars (b : UInt8) : ∀ c ∈ encodeByte b, unreserved c ∨ c = '%' := by
  have hall : ∀ n : Fin 256,
      (encodeByte (UInt8.ofNat n)).all fun c => decide (unreserved c ∨ c = '%') := by
    decide +kernel
  have h := hall ⟨b.toNat, b.toNat_lt⟩
  simpa using h

/-- Percent encoding keeps what the crate promises. -/
def percentEncoding : UrlEncoding where
  encode := fun t => (Text.utf8 t).flatMap encodeByte
  decode := fun t =>
    match Text.ofUtf8 (decodeBytes t) with
    | some decoded => .ok decoded
    | none => .error "invalid utf-8 sequence"
  decode_encode := by
    intro t
    rw [decodeBytes_flatMap, Text.ofUtf8_utf8]
  encode_chars := by
    intro t c hc
    obtain ⟨b, _, hc⟩ := List.mem_flatMap.mp hc
    exact encodeByte_chars b c hc
  encode_nil := by decide +kernel

/-- A dump of a database with `2 ^ 32` empty blocks is not restored. -/
theorem dumpRestores_fails :
    ¬ DumpRestores percentEncoding (fun _ => Vector.replicate 20 0)
      [⟨"main".toList, ⟨[], List.replicate (2 ^ 32) []⟩⟩] := by
  intro h
  have hlength : (List.replicate (2 ^ 32) ([] : Bytes)).length = 2 ^ 32 := List.length_replicate
  have hempty : ∀ b ∈ List.replicate (2 ^ 32) ([] : Bytes), b.length < 2 ^ 32 := by
    intro b hb
    rw [List.eq_of_mem_replicate hb]
    decide
  generalize List.replicate (2 ^ 32) ([] : Bytes) = blocks at h hlength hempty
  have hfits : Content.Fits ⟨[], blocks⟩ := ⟨Nat.two_pow_pos 32, hempty⟩
  obtain ⟨file, hfile, hstream⟩ := h.streamed _ List.mem_cons_self
  rw [dumpDb_eq hfits] at hfile
  cases hfile
  have hwhole := hstream (Delivery.whole _)
  rw [packets_eq, drop_dumpFile] at hwhole
  obtain ⟨error, hending⟩ := (readAll_content _ hfits.1 hfits.2).2
    (Nat.le_of_eq hlength.symm)
  rw [hwhole] at hending
  cases hending

def sampleDatabases : List Database :=
  [⟨"main".toList, ⟨[1, 2], [[3], [], [4, 5]]⟩⟩, ⟨"a/b.c".toList, ⟨[], []⟩⟩]

theorem dumpRestores_sample :
    DumpRestores percentEncoding (fun _ => Vector.replicate 20 0) sampleDatabases ↔
      ∀ db ∈ sampleDatabases, db.content.blocks.length < 2 ^ 32 ∧ db.name ≠ [] :=
  dumpRestores_iff (by decide +kernel) (by decide +kernel)

end GelCli.Dump
