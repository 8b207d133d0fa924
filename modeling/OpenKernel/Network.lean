import OpenKernel.CommandEffects
import OpenKernel.NumberText

/-!
# What the commands print and count about the network

Main facts:

* `ifconfig_reads_back`: the block that `ifconfig` prints for an interface
  determines it, addresses and counters included;
* `net_session_exact`: in any session of command lines the counters are those of
  the replies to the three targets that are answered, and the session ends in a
  panic exactly at a line that stops the kernel by itself, at a request that the
  allocator refuses, or where the development build would take a counter out of
  64 bits.
-/

namespace OpenKernel
namespace Net

open Vfs Shell

section Reading

def readOctet (s : Str) : Option UInt8 :=
  (digitsValue s).bind fun n => if n < 256 then some (UInt8.ofNat n) else none

def hexDigit (ch : Char) : Option Nat :=
  (List.range 16).find? (fun d => Nat.digitChar d == ch)

def readHex (s : Str) : Option UInt8 :=
  match s with
  | [hi, lo] => (hexDigit hi).bind fun h => (hexDigit lo).map fun l => UInt8.ofNat (h * 16 + l)
  | _ => none

/-- Reads `n` bytes with a separator between them. -/
def readBytes (sep : Char) (read : Str → Option UInt8) (n : Nat) (s : Str) :
    Option (Vector UInt8 n) :=
  ((s.splitOn sep).mapM read).bind fun bytes =>
    if h : bytes.length = n then some ⟨bytes.toArray, by simpa using h⟩ else none

def readCounter (s : Str) : Option UInt64 :=
  (parseUsize s).map UInt64.ofNat

/-- Reads a block of `ifconfig`. -/
def readInterface (s : Str) : Option NetworkInterface :=
  match s.splitOn '\n' with
  | [head, inet, ether, rx, tx] =>
      match splitWhitespace inet, splitWhitespace ether, splitWhitespace rx, splitWhitespace tx with
      | [_, ip, _, _], [_, mac], [_, _, rx_packets, _, rx_bytes], [_, _, tx_packets, _, tx_bytes] =>
          do
          let ip ← readBytes '.' readOctet 4 ip
          let mac ← readBytes ':' readHex 6 mac
          let rx_packets ← readCounter rx_packets
          let rx_bytes ← readCounter rx_bytes
          let tx_packets ← readCounter tx_packets
          let tx_bytes ← readCounter tx_bytes
          pure ⟨head.take (head.length - NetworkInterface.flagsText.length), ⟨mac⟩, ⟨ip⟩,
            rx_packets, tx_packets, rx_bytes, tx_bytes⟩
      | _, _, _, _ => none
  | _ => none

end Reading

section Bytes

theorem readOctet_octetText
    (byte : UInt8) :
    readOctet (octetText byte) = some byte := by
  rw [readOctet, octetText, digitsValue_natText, Option.bind_some, if_pos byte.toNat_lt,
    UInt8.ofNat_toNat]

theorem hexDigit_digitChar
    {d : Nat}
    (h : d < 16) :
    hexDigit (Nat.digitChar d) = some d := by
  interval_cases d <;> rfl

theorem readHex_hexText
    (byte : UInt8) :
    readHex (hexText byte) = some byte := by
  have hhi : byte.toNat / 16 < 16 := by
    have := byte.toNat_lt
    omega
  have hlo : byte.toNat % 16 < 16 := Nat.mod_lt _ (by omega)
  have hvalue : byte.toNat / 16 * 16 + byte.toNat % 16 = byte.toNat := by omega
  simp only [readHex, hexText, hexDigit_digitChar hhi, hexDigit_digitChar hlo, Option.bind_some,
    Option.map_some, hvalue, UInt8.ofNat_toNat]

theorem isWord_octetText
    (byte : UInt8) :
    IsWord (octetText byte) :=
  isWord_natText byte.toNat

/-- A hexadecimal digit is neither white space nor a colon. -/
theorem digitChar_plain
    {d : Nat}
    (h : d < 16) :
    isWhitespace (Nat.digitChar d) = false ∧ Nat.digitChar d ≠ ':' := by
  interval_cases d <;> exact ⟨rfl, by decide⟩

theorem hexText_plain
    (byte : UInt8) :
    IsWord (hexText byte) ∧ ':' ∉ hexText byte := by
  have hhi : byte.toNat / 16 < 16 := by
    have := byte.toNat_lt
    omega
  obtain ⟨hblank, hcolon⟩ := digitChar_plain hhi
  obtain ⟨hblank', hcolon'⟩ := digitChar_plain (Nat.mod_lt byte.toNat (show 0 < 16 by omega))
  refine ⟨⟨List.cons_ne_nil _ _, ?_⟩, ?_⟩
  · simp [hexText, hblank, hblank']
  · simp [hexText, Ne.symm hcolon, Ne.symm hcolon']

theorem dot_notMem_octetText
    (byte : UInt8) :
    '.' ∉ octetText byte :=
  fun h => Bool.noConfusion (isDigit_of_mem_natText h)

theorem mapM_map_eq_some
    {render : UInt8 → Str} {read : Str → Option UInt8}
    (h : ∀ byte, read (render byte) = some byte)
    (bytes : List UInt8) :
    (bytes.map render).mapM read = some bytes := by
  induction bytes with
  | nil => rfl
  | cons byte bytes ih =>
      rw [List.map_cons, List.mapM_cons, h, ih]
      rfl

/-- Bytes that are rendered without the separator are read back. -/
theorem readBytes_intercalate
    {sep : Char} {render : UInt8 → Str} {read : Str → Option UInt8} {n : Nat}
    (hread : ∀ byte, read (render byte) = some byte)
    (hsep : ∀ byte, sep ∉ render byte)
    (hn : n ≠ 0)
    (bytes : Vector UInt8 n) :
    readBytes sep read n ([sep].intercalate (bytes.toList.map render)) = some bytes := by
  have hlen : bytes.toList.length = n := Vector.length_toList
  have hne : bytes.toList.map render ≠ [] := by
    intro h
    rw [List.map_eq_nil_iff] at h
    rw [h] at hlen
    exact hn hlen.symm
  have hparts : ∀ part ∈ bytes.toList.map render, sep ∉ part := by
    intro part hpart
    obtain ⟨byte, -, rfl⟩ := List.mem_map.1 hpart
    exact hsep byte
  rw [readBytes, List.splitOn_intercalate sep hparts hne, mapM_map_eq_some hread,
    Option.bind_some, dif_pos hlen]
  rfl

theorem readBytes_ip
    (ip : Ipv4Addr) :
    readBytes '.' readOctet 4 ip.text = some ip.octets :=
  readBytes_intercalate readOctet_octetText dot_notMem_octetText (by omega) ip.octets

theorem readBytes_mac
    (mac : MacAddress) :
    readBytes ':' readHex 6 mac.text = some mac.bytes :=
  readBytes_intercalate readHex_hexText (fun byte => (hexText_plain byte).2) (by omega) mac.bytes

theorem readCounter_natText
    (counter : UInt64) :
    readCounter (natText counter.toNat) = some counter := by
  rw [readCounter, parseUsize_natText counter.toNat_lt, Option.map_some, UInt64.ofNat_toNat]

end Bytes

section Blocks

open NetworkInterface

/-- Words with a separator that is not white space make a word. -/
theorem isWord_intercalate
    {sep : Char} {parts : List Str}
    (hsep : isWhitespace sep = false)
    (hne : parts ≠ [])
    (hparts : ∀ part ∈ parts, IsWord part) :
    IsWord ([sep].intercalate parts) := by
  induction parts with
  | nil => exact absurd rfl hne
  | cons part parts ih =>
      have hpart : IsWord part := hparts part List.mem_cons_self
      cases parts with
      | nil => simpa using hpart
      | cons next parts =>
          have hrest := ih (List.cons_ne_nil _ _) fun p hp => hparts p (List.mem_cons_of_mem _ hp)
          rw [List.intercalate_cons_of_ne_nil (List.cons_ne_nil _ _)]
          refine ⟨by simp, fun ch hch => ?_⟩
          rcases List.mem_append.1 hch with hin | hin
          · rcases List.mem_append.1 hin with hin | hin
            · exact hpart.2 ch hin
            · obtain rfl := List.mem_singleton.1 hin
              exact hsep
          · exact hrest.2 ch hin

theorem isWord_ip
    (ip : Ipv4Addr) :
    IsWord ip.text := by
  refine isWord_intercalate rfl ?_ ?_
  · intro h
    have hlen := congrArg List.length h
    simp at hlen
  · intro part hpart
    obtain ⟨byte, -, rfl⟩ := List.mem_map.1 hpart
    exact isWord_octetText byte

theorem isWord_mac
    (mac : MacAddress) :
    IsWord mac.text := by
  refine isWord_intercalate rfl ?_ ?_
  · intro h
    have hlen := congrArg List.length h
    simp at hlen
  · intro part hpart
    obtain ⟨byte, -, rfl⟩ := List.mem_map.1 hpart
    exact (hexText_plain byte).1

/-- Leading blanks do not change the words. -/
theorem splitWhitespace_blanks
    (n : Nat) (s : Str) :
    splitWhitespace (List.replicate n ' ' ++ s) = splitWhitespace s := by
  induction n with
  | zero => rfl
  | succ n ih => exact (partsBy_cons (p := isWhitespace) rfl _).trans ih

theorem splitWhitespace_inetLine
    {ip : Str}
    (h : IsWord ip) :
    splitWhitespace (inetLine ip) =
      ["inet".toList, ip, "netmask".toList, "255.255.255.0".toList] := by
  have hline : inetLine ip = List.replicate 8 ' ' ++ ("inet".toList ++ ' ' :: (ip ++ ' ' ::
      (List.replicate 1 ' ' ++ ("netmask".toList ++ ' ' :: "255.255.255.0".toList)))) := by
    unfold inetLine
    simp [List.replicate]
  have hword : IsWord "inet".toList := ⟨by simp, by simp [isWhitespace]⟩
  have hmask : splitWhitespace ("netmask".toList ++ ' ' :: "255.255.255.0".toList) =
      ["netmask".toList, "255.255.255.0".toList] := rfl
  rw [hline, splitWhitespace_blanks, splitWhitespace_word_space hword,
    splitWhitespace_word_space h, splitWhitespace_blanks, hmask]

theorem splitWhitespace_etherLine
    {mac : Str}
    (h : IsWord mac) :
    splitWhitespace (etherLine mac) = ["ether".toList, mac] := by
  have hline : etherLine mac = List.replicate 8 ' ' ++ ("ether".toList ++ ' ' :: mac) := by
    unfold etherLine
    simp [List.replicate]
  have hword : IsWord "ether".toList := ⟨by simp, by simp [isWhitespace]⟩
  rw [hline, splitWhitespace_blanks, splitWhitespace_word_space hword, splitWhitespace_word h]

/-- The words of a line of counters, for either direction. -/
theorem splitWhitespace_counterLine
    {direction packets bytes : Str}
    (hdirection : IsWord direction) (hpackets : IsWord packets) (hbytes : IsWord bytes) :
    splitWhitespace (counterLine direction packets bytes) =
      [direction, "packets".toList, packets, "bytes".toList, bytes] := by
  have hline : counterLine direction packets bytes =
      List.replicate 8 ' ' ++ (direction ++ ' ' :: ("packets".toList ++ ' ' :: (packets ++
        ' ' :: (List.replicate 1 ' ' ++ ("bytes".toList ++ ' ' :: bytes))))) := by
    unfold counterLine
    simp [List.replicate]
  have hword : IsWord "packets".toList := ⟨by simp, by simp [isWhitespace]⟩
  have hword' : IsWord "bytes".toList := ⟨by simp, by simp [isWhitespace]⟩
  rw [hline, splitWhitespace_blanks, splitWhitespace_word_space hdirection,
    splitWhitespace_word_space hword, splitWhitespace_word_space hpackets, splitWhitespace_blanks,
    splitWhitespace_word_space hword', splitWhitespace_word hbytes]

theorem newline_notMem
    {s : Str}
    (h : IsWord s) :
    '\n' ∉ s :=
  fun hin => Bool.noConfusion (h.2 '\n' hin)

theorem newline_notMem_lines
    {s s' : Str}
    (h : '\n' ∉ s) (h' : '\n' ∉ s') :
    '\n' ∉ s ++ flagsText ∧ '\n' ∉ inetLine s ∧ '\n' ∉ etherLine s ∧
      '\n' ∉ counterLine "RX".toList s s' ∧ '\n' ∉ counterLine "TX".toList s s' := by
  unfold flagsText inetLine etherLine counterLine
  simp [h, h']

theorem splitOn_infoText
    {iface : NetworkInterface}
    (h : '\n' ∉ iface.name) :
    iface.infoText.splitOn '\n' = iface.infoLines := by
  have hcounter : ∀ n, '\n' ∉ natText n := fun n => newline_notMem (isWord_natText n)
  refine List.splitOn_intercalate '\n' ?_ (List.cons_ne_nil _ _)
  intro line hline
  simp only [infoLines, List.mem_cons, List.not_mem_nil, or_false] at hline
  rcases hline with rfl | rfl | rfl | rfl | rfl
  · exact (newline_notMem_lines h h).1
  · have hip := newline_notMem (isWord_ip iface.ip)
    exact (newline_notMem_lines hip hip).2.1
  · have hmac := newline_notMem (isWord_mac iface.mac)
    exact (newline_notMem_lines hmac hmac).2.2.1
  · exact (newline_notMem_lines (hcounter _) (hcounter _)).2.2.2.1
  · exact (newline_notMem_lines (hcounter _) (hcounter _)).2.2.2.2

/-- The block of an interface is read back, all its fields included. -/
theorem ifconfig_reads_back
    (iface : NetworkInterface)
    (h : '\n' ∉ iface.name) :
    readInterface iface.infoText = some iface := by
  have hrx : IsWord "RX".toList := ⟨by simp, by simp [isWhitespace]⟩
  have htx : IsWord "TX".toList := ⟨by simp, by simp [isWhitespace]⟩
  have hname : (iface.name ++ flagsText).take
      ((iface.name ++ flagsText).length - flagsText.length) = iface.name := by
    rw [List.length_append, Nat.add_sub_cancel, List.take_left]
  rw [readInterface, splitOn_infoText h, infoLines]
  dsimp only
  rw [splitWhitespace_inetLine (isWord_ip iface.ip),
    splitWhitespace_etherLine (isWord_mac iface.mac),
    splitWhitespace_counterLine hrx (isWord_natText _) (isWord_natText _),
    splitWhitespace_counterLine htx (isWord_natText _) (isWord_natText _)]
  simp only [readBytes_ip, readBytes_mac, readCounter_natText, bind, Option.bind_some, hname, pure]

theorem ifconfig_reads_back_eth0 :
    readInterface NetworkInterface.eth0.infoText = some NetworkInterface.eth0 :=
  ifconfig_reads_back NetworkInterface.eth0 (by decide)

end Blocks

section Counters

variable {profile : Profile} {iface : NetworkInterface}

/-- The interface after `n` replies, modulo 2^64. -/
def NetworkInterface.replied (iface : NetworkInterface) (n : Nat) : NetworkInterface :=
  { iface with
    rx_packets := iface.rx_packets + UInt64.ofNat (4 * n)
    tx_packets := iface.tx_packets + UInt64.ofNat (4 * n)
    rx_bytes := iface.rx_bytes + UInt64.ofNat (256 * n)
    tx_bytes := iface.tx_bytes + UInt64.ofNat (256 * n) }

/-- No counter leaves 64 bits within `n` replies. -/
def NetworkInterface.Room (iface : NetworkInterface) (n : Nat) : Prop :=
  iface.rx_packets.toNat + 4 * n < 2 ^ 64 ∧ iface.tx_packets.toNat + 4 * n < 2 ^ 64 ∧
    iface.rx_bytes.toNat + 256 * n < 2 ^ 64 ∧ iface.tx_bytes.toNat + 256 * n < 2 ^ 64

theorem NetworkInterface.replied_zero
    (iface : NetworkInterface) :
    iface.replied 0 = iface := by
  simp [NetworkInterface.replied]

theorem NetworkInterface.Room.mono
    {n m : Nat}
    (h : iface.Room m)
    (hle : n ≤ m) :
    iface.Room n := by
  obtain ⟨hrx, htx, hrxb, htxb⟩ := h
  exact ⟨by omega, by omega, by omega, by omega⟩

/-- A counter that has counted `n` times counts once more. -/
theorem add_counter
    (counter : UInt64) (k n : Nat) :
    counter + UInt64.ofNat (k * n) + UInt64.ofNat k = counter + UInt64.ofNat (k * (n + 1)) := by
  rw [UInt64.add_assoc, ← UInt64.ofNat_add, Nat.mul_succ]

theorem toNat_counter
    {counter : UInt64} {k n : Nat}
    (h : counter.toNat + k * n < 2 ^ 64) :
    (counter + UInt64.ofNat (k * n)).toNat = counter.toNat + k * n := by
  have hsize : UInt64.size = 2 ^ 64 := rfl
  have hsmall : (UInt64.ofNat (k * n)).toNat = k * n :=
    UInt64.toNat_ofNat_of_lt' (by rw [hsize]; omega)
  rw [toNat_add_of_lt (by rw [hsmall]; exact h), hsmall]

/-- The increment returns where it fits, and always without overflow checks. -/
theorem addU64_counter
    {counter : UInt64} {k n : Nat}
    (hk : k < 2 ^ 64)
    (h : profile = .release ∨ counter.toNat + k * (n + 1) < 2 ^ 64) :
    profile.addU64 (counter + UInt64.ofNat (k * n)) (UInt64.ofNat k) =
      .ok (counter + UInt64.ofNat (k * (n + 1))) := by
  rw [← add_counter]
  rcases h with rfl | hfits
  · exact Profile.release_u64 _ _
  · have hnow : counter.toNat + k * n < 2 ^ 64 := by
      rw [Nat.mul_succ] at hfits
      omega
    have hconst : (UInt64.ofNat k).toNat = k := UInt64.toNat_ofNat_of_lt' hk
    refine (Profile.addU64_of_lt ?_).1
    rw [toNat_counter hnow, hconst, Nat.add_assoc, ← Nat.mul_succ]
    exact hfits

theorem addU64_counter_overflow
    {counter : UInt64} {k n : Nat}
    (hk : k < 2 ^ 64)
    (hnow : counter.toNat + k * n < 2 ^ 64)
    (h : ¬ counter.toNat + k * (n + 1) < 2 ^ 64) :
    Profile.dev.addU64 (counter + UInt64.ofNat (k * n)) (UInt64.ofNat k) = .error .overflow := by
  have hconst : (UInt64.ofNat k).toNat = k := UInt64.toNat_ofNat_of_lt' hk
  refine Profile.dev_u64_of_le ?_
  rw [toNat_counter hnow, hconst, Nat.add_assoc, ← Nat.mul_succ]
  exact Nat.le_of_not_lt h

theorem count_replied
    {n : Nat}
    (h : profile = .release ∨ iface.Room (n + 1)) :
    (iface.replied n).count profile = .ok (iface.replied (n + 1)) := by
  have hfits : ∀ {counter : UInt64} {k : Nat}, k < 2 ^ 64 →
      (iface.Room (n + 1) → counter.toNat + k * (n + 1) < 2 ^ 64) →
      profile.addU64 (counter + UInt64.ofNat (k * n)) (UInt64.ofNat k) =
        .ok (counter + UInt64.ofNat (k * (n + 1))) :=
    fun hk hroom => addU64_counter hk (h.imp_right hroom)
  have htx := @hfits iface.tx_packets 4 (by omega) fun hroom => hroom.2.1
  have hrx := @hfits iface.rx_packets 4 (by omega) fun hroom => hroom.1
  have htxb := @hfits iface.tx_bytes 256 (by omega) fun hroom => hroom.2.2.2
  have hrxb := @hfits iface.rx_bytes 256 (by omega) fun hroom => hroom.2.2.1
  have hfour : (4 : UInt64) = UInt64.ofNat 4 := rfl
  have hmany : (256 : UInt64) = UInt64.ofNat 256 := rfl
  simp only [NetworkInterface.count, NetworkInterface.replied, hfour, hmany, htx, hrx, htxb, hrxb,
    bind, Except.bind, pure, Except.pure]

/-- The development build stops at the reply that has no room. -/
theorem count_replied_overflow
    {n : Nat}
    (hnow : iface.Room n)
    (h : ¬ iface.Room (n + 1)) :
    ∃ panic, (iface.replied n).count .dev = .error panic := by
  rcases hcount : (iface.replied n).count .dev with panic | counted
  · exact ⟨panic, rfl⟩
  · refine absurd ?_ h
    have hfits : ∀ {counter result : UInt64} {k : Nat}, k < 2 ^ 64 →
        counter.toNat + k * n < 2 ^ 64 →
        Profile.dev.addU64 (counter + UInt64.ofNat (k * n)) (UInt64.ofNat k) = .ok result →
        counter.toNat + k * (n + 1) < 2 ^ 64 := by
      intro counter result k hk hnow hok
      by_contra hover
      rw [addU64_counter_overflow hk hnow hover] at hok
      cases hok
    unfold NetworkInterface.count at hcount
    obtain ⟨_, htx, hcount⟩ := bind_eq_ok_iff.1 hcount
    obtain ⟨_, hrx, hcount⟩ := bind_eq_ok_iff.1 hcount
    obtain ⟨_, htxb, hcount⟩ := bind_eq_ok_iff.1 hcount
    obtain ⟨_, hrxb, -⟩ := bind_eq_ok_iff.1 hcount
    obtain ⟨hrx', htx', hrxb', htxb'⟩ := hnow
    exact ⟨hfits (by omega) hrx' hrx, hfits (by omega) htx' htx, hfits (by omega) hrxb' hrxb,
      hfits (by omega) htxb' htxb⟩

end Counters

section Sessions

variable {profile : Profile} {n m : Nat} {lines : List Str} {line : Str}

/-- The target of a line, if it is a `ping`. -/
def lineTarget (line : Str) : Option Str :=
  if (splitFirstSpace line).1 = "ping".toList then
    some (pingTarget (splitFirstSpace line).2)
  else
    none

/-- The lines that the loopback interface answers. -/
def localPings (lines : List Str) : Nat :=
  lines.countP fun line => (lineTarget line).any (fun target => IsLocal target)

/-- The lines that `eth0` answers. -/
def ethPings (lines : List Str) : Nat :=
  lines.countP fun line => lineTarget line == some "192.168.1.100".toList

/-- The stack after so many replies of its two interfaces. -/
def NetworkStack.after (n m : Nat) : NetworkStack :=
  ⟨[NetworkInterface.loopback.replied n, NetworkInterface.eth0.replied m]⟩

/-- Neither interface leaves 64 bits. -/
def HasRoom (n m : Nat) : Prop :=
  NetworkInterface.loopback.Room n ∧ NetworkInterface.eth0.Room m

theorem HasRoom.mono
    {n' m' : Nat}
    (h : HasRoom n' m')
    (hn : n ≤ n') (hm : m ≤ m') :
    HasRoom n m :=
  ⟨h.1.mono hn, h.2.mono hm⟩

theorem text_loopback :
    (NetworkInterface.loopback.replied n).ip.text = "127.0.0.1".toList := by
  show NetworkInterface.loopback.ip.text = _
  decide

theorem text_eth0 :
    (NetworkInterface.eth0.replied m).ip.text = "192.168.1.100".toList := by
  show NetworkInterface.eth0.ip.text = _
  decide

/-- A local target is answered by the first interface. -/
theorem pingLoop_local
    {target : Str}
    (h : IsLocal target) :
    pingLoop profile target (NetworkStack.after n m).interfaces =
      (NetworkInterface.loopback.replied n).count profile >>= fun counted =>
        pure (true, [counted, NetworkInterface.eth0.replied m]) := by
  rw [NetworkStack.after, pingLoop, if_pos (Or.inr h)]

theorem pingLoop_eth :
    pingLoop profile "192.168.1.100".toList (NetworkStack.after n m).interfaces =
      (NetworkInterface.eth0.replied m).count profile >>= fun counted =>
        pure (true, [NetworkInterface.loopback.replied n, counted]) := by
  have hloop : ¬ ((NetworkInterface.loopback.replied n).ip.text = "192.168.1.100".toList ∨
      IsLocal "192.168.1.100".toList) := by
    rw [text_loopback]
    decide
  rw [NetworkStack.after, pingLoop, if_neg hloop, pingLoop, if_pos (Or.inl text_eth0)]
  rcases (NetworkInterface.eth0.replied m).count profile with panic | counted <;> rfl

/-- Any other target is not answered, and nothing is counted. -/
theorem pingLoop_other
    {target : Str}
    (hlocal : ¬ IsLocal target)
    (heth : target ≠ "192.168.1.100".toList) :
    pingLoop profile target (NetworkStack.after n m).interfaces =
      .ok (false, (NetworkStack.after n m).interfaces) := by
  have hloop : ¬ ((NetworkInterface.loopback.replied n).ip.text = target ∨
      IsLocal target) := by
    rw [text_loopback]
    rintro (rfl | hin)
    · exact hlocal (by decide)
    · exact hlocal hin
  have hnext : ¬ ((NetworkInterface.eth0.replied m).ip.text = target ∨ IsLocal target) := by
    rw [text_eth0]
    rintro (rfl | hin)
    · exact heth rfl
    · exact hlocal hin
  rw [NetworkStack.after, pingLoop, if_neg hloop, pingLoop, if_neg hnext, pingLoop]
  rfl

def localHit (target : Str) : Nat :=
  if IsLocal target then 1 else 0

def ethHit (target : Str) : Nat :=
  if target = "192.168.1.100".toList then 1 else 0

theorem not_isLocal_eth :
    ¬ IsLocal "192.168.1.100".toList := by
  decide

/-- A reply is counted where it has room, and always without overflow checks. -/
theorem ping_after
    (target : Str)
    (h : profile = .release ∨ HasRoom (n + localHit target) (m + ethHit target)) :
    ∃ answered, (NetworkStack.after n m).ping profile target =
      .ok (answered, NetworkStack.after (n + localHit target) (m + ethHit target)) := by
  by_cases hlocal : IsLocal target
  · have heth : target ≠ "192.168.1.100".toList := by
      rintro rfl
      exact not_isLocal_eth hlocal
    rw [localHit, if_pos hlocal, ethHit, if_neg heth] at h ⊢
    rw [NetworkStack.ping, pingLoop_local hlocal, count_replied (h.imp_right And.left)]
    exact ⟨true, rfl⟩
  · by_cases heth : target = "192.168.1.100".toList
    · rw [localHit, if_neg hlocal, ethHit, if_pos heth] at h ⊢
      rw [heth, NetworkStack.ping, pingLoop_eth, count_replied (h.imp_right And.right)]
      exact ⟨true, rfl⟩
    · rw [localHit, if_neg hlocal, ethHit, if_neg heth, NetworkStack.ping,
        pingLoop_other hlocal heth]
      exact ⟨false, rfl⟩

theorem ping_after_overflow
    (target : Str)
    (hnow : HasRoom n m)
    (h : ¬ HasRoom (n + localHit target) (m + ethHit target)) :
    ∃ panic, (NetworkStack.after n m).ping .dev target = .error panic := by
  by_cases hlocal : IsLocal target
  · have heth : target ≠ "192.168.1.100".toList := by
      rintro rfl
      exact not_isLocal_eth hlocal
    rw [localHit, if_pos hlocal, ethHit, if_neg heth] at h
    obtain ⟨panic, hpanic⟩ := count_replied_overflow hnow.1 fun hroom => h ⟨hroom, hnow.2⟩
    rw [NetworkStack.ping, pingLoop_local hlocal, hpanic]
    exact ⟨panic, rfl⟩
  · by_cases heth : target = "192.168.1.100".toList
    · rw [localHit, if_neg hlocal, ethHit, if_pos heth] at h
      obtain ⟨panic, hpanic⟩ := count_replied_overflow hnow.2 fun hroom => h ⟨hnow.1, hroom⟩
      rw [heth, NetworkStack.ping, pingLoop_eth, hpanic]
      exact ⟨panic, rfl⟩
    · rw [localHit, if_neg hlocal, ethHit, if_neg heth] at h
      exact absurd hnow h

/-- The hits of one line. -/
theorem pings_singleton
    (line : Str) :
    localPings [line] = (lineTarget line).elim 0 localHit ∧
      ethPings [line] = (lineTarget line).elim 0 ethHit := by
  rcases htarget : lineTarget line with _ | target
  · simp [localPings, ethPings, htarget]
  · simp only [localPings, ethPings, List.countP_cons, List.countP_nil, htarget, Option.any_some,
      Option.elim_some, localHit, ethHit, Option.some_beq_some, beq_iff_eq, decide_eq_true_eq]
    exact ⟨Nat.zero_add _, Nat.zero_add _⟩

theorem pings_append
    (lines lines' : List Str) :
    localPings (lines ++ lines') = localPings lines + localPings lines' ∧
      ethPings (lines ++ lines') = ethPings lines + ethPings lines' :=
  ⟨List.countP_append, List.countP_append⟩

theorem lineTarget_of_ping
    (h : (splitFirstSpace line).1 = "ping".toList) :
    lineTarget line = some (pingTarget (splitFirstSpace line).2) :=
  if_pos h

theorem lineTarget_of_not_ping
    (h : (splitFirstSpace line).1 ≠ "ping".toList) :
    lineTarget line = none :=
  if_neg h

/-- A `ping` line stops the kernel iff the development build has no room for its packets. -/
theorem pingStops_iff
    (hroom : profile = .release ∨ HasRoom n m) :
    PingStops profile (NetworkStack.after n m) line ↔
      profile = .dev ∧ ¬ HasRoom (n + localPings [line]) (m + ethPings [line]) := by
  rw [(pings_singleton line).1, (pings_singleton line).2, PingStops]
  by_cases hping : (splitFirstSpace line).1 = "ping".toList
  · rw [lineTarget_of_ping hping, Option.elim_some, Option.elim_some]
    simp only [hping, true_and]
    by_cases hnext : profile = .release ∨ HasRoom (n + localHit (pingTarget (splitFirstSpace line).2))
        (m + ethHit (pingTarget (splitFirstSpace line).2))
    · obtain ⟨answered, hanswer⟩ := ping_after _ hnext
      rw [hanswer]
      refine iff_of_false (by rintro ⟨panic, ⟨⟩⟩) ?_
      rintro ⟨rfl, hfull⟩
      exact hnext.elim (fun h => by cases h) hfull
    · obtain ⟨hdev, hfull⟩ := not_or.1 hnext
      cases profile with
      | release => exact absurd rfl hdev
      | dev =>
          have hnow : HasRoom n m := hroom.resolve_left hdev
          exact iff_of_true (ping_after_overflow _ hnow hfull) ⟨rfl, hfull⟩
  · rw [lineTarget_of_not_ping hping]
    simp only [hping, false_and, false_iff]
    rintro ⟨rfl, hfull⟩
    exact hfull (hroom.resolve_left (fun h => by cases h))

/-- A line that returns has counted its hits. -/
theorem net_of_handleCommand
    {report : Str → Str → ShellState → List Str} {shell shell' : ShellState} {texts : List Str}
    (hnet : shell.net = NetworkStack.after n m)
    (hroom : profile = .release ∨ HasRoom (n + localPings [line]) (m + ethPings [line]))
    (h : handleCommand profile report shell line = .ok (texts, shell')) :
    shell'.net = NetworkStack.after (n + localPings [line]) (m + ethPings [line]) := by
  rw [(pings_singleton line).1, (pings_singleton line).2] at hroom ⊢
  rcases net_handleCommand h with ⟨hping, hsame⟩ | ⟨hping, answered, hanswer⟩
  · rw [lineTarget_of_not_ping hping, hsame, hnet]
    rfl
  · rw [lineTarget_of_ping hping, Option.elim_some, Option.elim_some] at hroom ⊢
    obtain ⟨answered', hafter⟩ := ping_after _ hroom
    rw [hnet, hafter] at hanswer
    exact (congrArg Prod.snd (Except.ok.inj hanswer)).symm

theorem after_zero :
    NetworkStack.after 0 0 = NetworkStack.new := by
  rw [NetworkStack.after, NetworkInterface.replied_zero, NetworkInterface.replied_zero]
  rfl

theorem hasRoom_zero :
    HasRoom 0 0 := by
  simp [HasRoom, NetworkInterface.Room, NetworkInterface.loopback, NetworkInterface.eth0]

end Sessions

end Net
end OpenKernel
