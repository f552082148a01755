import LindGrates.Theory.Ipc.Pipes
import LindGrates.Theory.Utf8

/-!
# Socket Addresses as Names

A socket address denotes a path, an abstract name or a port of a host. The
registry flattens it to a text, and addresses that denote different things can
get the same text: a path is read as UTF-8 with replacements and ends at its
first zero byte, so that all abstract names are empty; and a path may look like
the text of a port. `getsockname` makes an address from the text again.

## Main definitions

* `denotes`: What an address denotes.
* `AddressFaithful`: A bound socket is reached by its own name only, and reports it.
* `AddressPlain`: The addresses for which that holds.

## Theorems

* `address_faithful_iff`: A socket is faithfully named exactly if its address is plain.
* `address_confused`: A socket that is reached by another name.
-/

namespace LindGrates.Ipc

open FdTables ManagedTables World Function List Option SocketInfo UInt8 Nat

variable {m n : Nat} {a b addr : List UInt8} {domain : BitVec 32}

inductive Name
  | unnamed
  | abstract (name : List UInt8)
  | path (bytes : List UInt8)
  | inet (host : List UInt8) (port : Nat)
  deriving DecidableEq

def localHost : List UInt8 :=
  [127, 0, 0, 1]

/-- What an address denotes. The wildcard address stands for the local host. -/
def denotes (addr : List UInt8) : Option Name :=
  if family addr = afUnix then
    some (if addr.length ≤ 2 then .unnamed
      else if addr.getD 2 0 = 0 then .abstract (addr.drop 3)
      else .path (pathBytes addr))
  else if family addr = afInet then
    (port addr).map (.inet (if isLoopback addr then localHost else ip addr))
  else none

/-- The addresses the handlers admit. -/
def Admitted (addr : List UInt8) : Prop :=
  2 ≤ addr.length ∧ (family addr = afUnix ∨ family addr = afInet ∧ 4 ≤ addr.length)

/-- Both addresses get the same text: the paths read the same, one path is the
    text of the other's port, or the ports are the same. -/
def Confused (a b : List UInt8) : Prop :=
  family a = afUnix ∧ family b = afUnix ∧
    fromUtf8Lossy (pathBytes a) = fromUtf8Lossy (pathBytes b) ∨
  family a = afUnix ∧ family b = afInet ∧ (∃ n, port b = some n ∧ pathBytes a = (inetKey n).bytes) ∨
  family a = afInet ∧ family b = afUnix ∧ (∃ n, port a = some n ∧ pathBytes b = (inetKey n).bytes) ∨
  family a = afInet ∧ family b = afInet ∧ port a = port b

section Keys

theorem inet_ne_unix : afInet ≠ afUnix := by
  decide

theorem notMem_toDigits {c : Char} (hc : c.isDigit = false) (n : Nat) : c ∉ toDigits 10 n := by
  intro hmem
  rw [isDigit_of_mem_toDigits (by decide) (by decide) hmem] at hc
  cases hc

variable {n : Nat} {addr : List UInt8}

theorem inetKey_injective (h : inetKey m = inetKey n) : m = n := by
  have hdigits := append_cancel_left h
  rw [← ofDigitChars_ten_toDigits (n := m), hdigits, ofDigitChars_ten_toDigits]

theorem replacement_notMem_inetKey (n : Nat) : replacement ∉ inetKey n := by
  rw [inetKey, mem_append]
  exact not_or.mpr ⟨by decide, notMem_toDigits (by decide) n⟩

theorem fromUtf8Lossy_eq_inetKey {bs : List UInt8} :
    fromUtf8Lossy bs = inetKey n ↔ bs = (inetKey n).bytes := by
  constructor
  · intro h
    have hread := bytes_fromUtf8Lossy (h ▸ replacement_notMem_inetKey n)
    rw [← hread, h]
  · intro h
    rw [h, fromUtf8Lossy_bytes]

theorem port_lt (h : port addr = some n) : n < 65536 := by
  rw [port] at h
  split at h
  · have h2 := (addr.getD 2 0).toNat_lt
    have h3 := (addr.getD 3 0).toNat_lt
    have := some.inj h
    omega
  · cases h

theorem port_isSome (h : 4 ≤ addr.length) : ∃ n, port addr = some n :=
  ⟨_, if_pos h⟩

theorem targetKey_unix (h : family addr = afUnix) :
    targetKey addr = some (fromUtf8Lossy (pathBytes addr)) :=
  if_pos h

theorem targetKey_inet (h : family addr = afInet) : targetKey addr = (port addr).map inetKey := by
  rw [targetKey, if_neg (by rw [h]; exact inet_ne_unix), if_pos h]

theorem confused_iff (ha : Admitted a) (hb : Admitted b) :
    targetKey a = targetKey b ↔ Confused a b := by
  rcases ha with ⟨_, ha | ⟨ha, hlena⟩⟩ <;> rcases hb with ⟨_, hb | ⟨hb, hlenb⟩⟩
  · simp [Confused, targetKey_unix ha, targetKey_unix hb, ha, hb, inet_ne_unix.symm]
  · rcases port_isSome hlenb with ⟨n, hn⟩
    simp [Confused, targetKey_unix ha, targetKey_inet hb, ha, hb, inet_ne_unix.symm, inet_ne_unix,
      hn, fromUtf8Lossy_eq_inetKey]
  · rcases port_isSome hlena with ⟨n, hn⟩
    simp [Confused, targetKey_inet ha, targetKey_unix hb, ha, hb, inet_ne_unix.symm, inet_ne_unix,
      hn, eq_comm (a := inetKey n), fromUtf8Lossy_eq_inetKey]
  rcases port_isSome hlena with ⟨m, hm⟩
  rcases port_isSome hlenb with ⟨n, hn⟩
  have hkey : inetKey m = inetKey n ↔ m = n := ⟨inetKey_injective, fun h => h ▸ rfl⟩
  simp [Confused, targetKey_inet ha, targetKey_inet hb, ha, hb, inet_ne_unix, hm, hn, hkey]

end Keys

section Reports

theorem splitLastColon_append (s t : Str) (h : ':' ∉ t) :
    splitLastColon (s ++ ':' :: t) = some (s, t) := by
  have hback : (s ++ ':' :: t).reverse = t.reverse ++ ':' :: s.reverse := by simp
  have hall : ∀ c ∈ t.reverse, decide (c ≠ ':') = true := by
    intro c hc
    rw [mem_reverse] at hc
    exact decide_eq_true fun heq => h (heq ▸ hc)
  rw [splitLastColon, hback, if_pos (by simp), takeWhile_append_of_pos hall,
    dropWhile_append_of_pos hall]
  simp

theorem splitLastColon_inetKey (n : Nat) :
    splitLastColon (inetKey n) =
      some (['1', '2', '7', '.', '0', '.', '0', '.', '1'], toDigits 10 n) :=
  splitLastColon_append ['1', '2', '7', '.', '0', '.', '0', '.', '1'] _
    (notMem_toDigits (by decide) n)

variable {n : Nat} {bytes : List UInt8}

theorem parseUnsigned_toDigits {bound : Nat} (h : n < bound) :
    parseUnsigned bound (toDigits 10 n) = some n := by
  have hplus : (toDigits 10 n).head? ≠ some '+' := by
    intro hhead
    exact notMem_toDigits (by decide) n (mem_of_mem_head? hhead)
  have hall : (toDigits 10 n).all Char.isDigit = true :=
    all_eq_true.mpr fun c hc => isDigit_of_mem_toDigits (by decide) (by decide) hc
  rw [parseUnsigned, if_neg hplus, ofDigitChars_ten_toDigits,
    if_pos ⟨toDigits_ne_nil, hall, h⟩]

theorem buildIpcSockaddr_inetKey (h : n < 65536) :
    buildIpcSockaddr afInet (some (inetKey n)) =
      [2, 0, ofNat (n / 256), ofNat (n % 256), 127, 0, 0, 1] ++
        List.replicate 8 0 := by
  rw [buildIpcSockaddr, if_neg inet_ne_unix, if_pos rfl, bind_some, splitLastColon_inetKey]
  dsimp only
  rw [portBytes, parseUnsigned_toDigits h,
    show hostBytes ['1', '2', '7', '.', '0', '.', '0', '.', '1'] = [127, 0, 0, 1] by decide]
  rfl

theorem denotes_inet (h : n < 65536) (rest : List UInt8) :
    denotes ([2, 0, ofNat (n / 256), ofNat (n % 256), 127, 0, 0, 1] ++ rest) =
      some (.inet localHost n) := by
  have hport : 256 * (ofNat (n / 256)).toNat + (ofNat (n % 256)).toNat = n := by
    rw [toNat_ofNat_of_lt' (show n / 256 < 256 by omega),
      toNat_ofNat_of_lt' (show n % 256 < 256 by omega)]
    omega
  have hloop : isLoopback ([2, 0, ofNat (n / 256), ofNat (n % 256), 127, 0, 0, 1] ++
      rest) = true := by
    simp [isLoopback, ip]
  rw [denotes, if_neg (by simp [family, afUnix]), if_pos (by simp [family, afInet]), hloop, port,
    if_pos (by simp)]
  simpa using hport

theorem denotes_path (hne : bytes ≠ []) (hzero : (0 : UInt8) ∉ bytes) :
    denotes ([1, 0] ++ bytes ++ [0]) = some (.path bytes) := by
  have hall : ∀ x ∈ bytes, decide (x ≠ 0) = true :=
    fun x hx => decide_eq_true fun heq => hzero (heq ▸ hx)
  have hpath : pathBytes ([1, 0] ++ bytes ++ [0]) = bytes := by
    rw [pathBytes, append_assoc, drop_left' (by rfl), takeWhile_append_of_pos hall]
    simp
  have hhead : ([1, 0] ++ bytes ++ [0]).getD 2 0 ≠ 0 := by
    cases bytes with
    | nil => exact absurd rfl hne
    | cons => exact fun heq => hzero (by simp_all)
  rw [denotes, if_pos (by simp [family, afUnix]), if_neg (by simp), if_neg hhead, hpath]

theorem denotes_ne_path (h : domain ≠ afUnix) (key : Option Str)
    (bytes : List UInt8) : denotes (buildIpcSockaddr domain key) ≠ some (.path bytes) := by
  have hfamily : family (buildIpcSockaddr domain key) ≠ afUnix := by
    unfold buildIpcSockaddr
    rw [if_neg h]
    split
    · split <;> simp [family, afUnix]
    · simp [family, afUnix]
  rw [denotes, if_neg hfamily]
  split <;> simp

theorem denotes_ne_inet (h : domain ≠ afInet) (key : Option Str) (host : List UInt8) (n : Nat) :
    denotes (buildIpcSockaddr domain key) ≠ some (.inet host n) := by
  unfold buildIpcSockaddr
  split
  · have hunix : ∀ bytes : List UInt8, family ([1, 0] ++ bytes) = afUnix := by
      intro bytes
      simp [family, afUnix]
    split
    · rw [append_assoc, denotes, if_pos (hunix _)]
      split <;> (try split) <;> simp
    · simp [denotes, family, afUnix]
  · simp [denotes, family, afUnix, afInet]

theorem denotes_eq_path (h : denotes addr = some (.path bytes)) :
    family addr = afUnix ∧ pathBytes addr = bytes ∧ bytes ≠ [] ∧ (0 : UInt8) ∉ bytes := by
  rw [denotes] at h
  split at h
  next hfamily =>
    split at h
    · cases h
    rename_i hlen
    split at h
    · cases h
    rename_i hhead
    cases h
    refine ⟨hfamily, rfl, ?_, ?_⟩
    · rcases addr with _ | ⟨x, _ | ⟨y, _ | ⟨z, addr⟩⟩⟩
      · exact absurd (zero_le 2) hlen
      · exact absurd (by decide : 1 ≤ 2) hlen
      · exact absurd (le_refl 2) hlen
      · have hz : z ≠ 0 := hhead
        simp [pathBytes, hz]
    · intro hmem
      have hkept := all_eq_true.mp all_takeWhile 0 hmem
      exact absurd rfl (of_decide_eq_true hkept)
  · split at h
    · rcases map_eq_some_iff.mp h with ⟨n, _, hn⟩
      cases hn
    · cases h

theorem denotes_eq_inet {host : List UInt8} (h : denotes addr = some (.inet host n)) :
    family addr = afInet ∧ port addr = some n := by
  rw [denotes] at h
  split at h
  · split at h
    · cases h
    split at h
    · cases h
    · cases h
  split at h
  next hfamily =>
    rcases map_eq_some_iff.mp h with ⟨m, hport, hm⟩
    cases hm
    exact ⟨hfamily, hport⟩
  · cases h

theorem reports_path (hne : bytes ≠ []) (hzero : (0 : UInt8) ∉ bytes) (hlen : bytes.length ≤ 107)
    (domain : BitVec 32) :
    denotes (buildIpcSockaddr domain (some (fromUtf8Lossy bytes))) = some (.path bytes) ↔
      domain = afUnix ∧ CutText 107 bytes := by
  by_cases hdomain : domain = afUnix
  · have htext : (fromUtf8Lossy bytes).bytes ≠ [] := by
      have hread := decodeLossy_ne_nil hne (le_refl _)
      have hlength := length_le_bytes (fromUtf8Lossy bytes)
      have hpos : 0 < (fromUtf8Lossy bytes).length := length_pos_iff.mpr hread
      exact length_pos_iff.mp (by omega)
    have htake : (fromUtf8Lossy bytes).bytes.take 107 ≠ [] := by
      simpa using htext
    have hnozero : (0 : UInt8) ∉ (fromUtf8Lossy bytes).bytes.take 107 :=
      fun hmem => zero_notMem_decodeLossy _ bytes hzero (mem_of_mem_take hmem)
    have hbuild : buildIpcSockaddr domain (some (fromUtf8Lossy bytes)) =
        [1, 0] ++ (fromUtf8Lossy bytes).bytes.take 107 ++ [0] :=
      if_pos hdomain
    rw [hbuild, denotes_path htake hnozero, some.injEq, Name.path.injEq,
      take_bytes_fromUtf8Lossy hlen]
    exact (and_iff_right hdomain).symm
  · exact iff_of_false (denotes_ne_path hdomain _ bytes) fun h => hdomain h.1

theorem reports_inet (hn : n < 65536) (domain : BitVec 32) :
    denotes (buildIpcSockaddr domain (some (inetKey n))) = some (.inet localHost m) ↔
      domain = afInet ∧ m = n := by
  by_cases hdomain : domain = afInet
  · rw [hdomain, buildIpcSockaddr_inetKey hn, denotes_inet hn, some.injEq, Name.inet.injEq]
    exact ⟨fun h => ⟨rfl, h.2.symm⟩, fun h => ⟨rfl, h.2.symm⟩⟩
  · exact iff_of_false (denotes_ne_inet hdomain _ localHost m) fun h => hdomain h.1

end Reports

/-- The addresses that are faithful, for a socket of the given domain. -/
structure AddressPlain (domain : BitVec 32) (a b : List UInt8) : Prop where
  reach : denotes a = denotes b ∨ ¬ Confused a b
  path : ∀ bytes, denotes b = some (.path bytes) → bytes.length ≤ 107 →
    domain = afUnix ∧ CutText 107 bytes
  inet : ∀ n, n ≠ 0 → denotes b = some (.inet localHost n) → ip b = localHost → domain = afInet
  port : denotes b ≠ some (.inet localHost 0)

theorem addressPlain_of_text {s t : Str}
    (ha : denotes a = some (.path s.bytes)) (hb : denotes b = some (.path t.bytes)) :
    AddressPlain afUnix a b := by
  rcases denotes_eq_path ha with ⟨hfa, hpa, _, _⟩
  rcases denotes_eq_path hb with ⟨hfb, hpb, _, _⟩
  refine ⟨?_, fun bytes hbytes _ => ⟨rfl, t, [], ?_, .inl rfl⟩, fun n _ hname => ?_, ?_⟩
  · by_cases hc : Confused a b
    · rcases hc with ⟨_, _, hc⟩ | ⟨_, hc, _⟩ | ⟨hc, _⟩ | ⟨hc, _⟩
      · rw [hpa, hpb, fromUtf8Lossy_bytes, fromUtf8Lossy_bytes] at hc
        rw [ha, hb, hc]
        exact .inl rfl
      · exact absurd (hc.symm.trans hfb) inet_ne_unix
      · exact absurd (hc.symm.trans hfa) inet_ne_unix
      · exact absurd (hc.symm.trans hfa) inet_ne_unix
    · exact .inr hc
  · rw [hb] at hbytes
    cases hbytes
    exact (append_nil _).symm
  · rw [hb] at hname
    cases hname
  · rw [hb]
    exact fun hc => by cases hc

theorem addressPlain_of_ports
    (ha : denotes a = some (.inet localHost m)) (hb : denotes b = some (.inet localHost n))
    (hn : n ≠ 0) : AddressPlain afInet a b := by
  rcases denotes_eq_inet ha with ⟨hfa, hpa⟩
  rcases denotes_eq_inet hb with ⟨hfb, hpb⟩
  refine ⟨?_, fun bytes hbytes => ?_, fun _ _ _ _ => rfl, ?_⟩
  · by_cases hc : Confused a b
    · rcases hc with ⟨hc, _⟩ | ⟨hc, _⟩ | ⟨_, hc, _⟩ | ⟨_, _, hc⟩
      · exact absurd (hfa.symm.trans hc) inet_ne_unix
      · exact absurd (hfa.symm.trans hc) inet_ne_unix
      · exact absurd (hfb.symm.trans hc) inet_ne_unix
      rw [hpa, hpb, some.injEq] at hc
      rw [ha, hb, hc]
      exact .inl rfl
    · exact .inr hc
  · rw [hb] at hbytes
    cases hbytes
  · rw [hb, Ne, some.injEq, Name.inet.injEq]
    exact fun hc => hn hc.2

theorem append_singleton_ne {α : Type} (l : List α) (x : α) : l ≠ l ++ [x] := by
  intro h
  have := congrArg List.length h
  rw [length_append, length_singleton] at this
  omega

section Binding

variable {T R : Type} {w w' : World T R} {cage fd socketId : Nat} {a b : List UInt8}
  {e : FDTableEntry} {sock : SocketInfo} {key : Str}

theorem sockets_fire (w : World T R) (e : Option FDTableEntry) :
    (w.fire e).ipc.sockets = w.ipc.sockets := by
  rcases e with _ | e
  · rfl
  rcases recounted_closeHandler w.ipc e with ⟨arcs, harcs, _⟩
  rw [fire, harcs]

theorem localAddr_joinQueue [RingBuffer R] (s : IpcState R) (id : Nat) (target : Str) (j : Nat) :
    ((s.joinQueue id target).sockets.sockets j).bind localAddr =
      (s.sockets.sockets j).bind localAddr := by
  change (update s.sockets.sockets id _ j).bind _ = _
  by_cases hj : j = id
  · rw [hj, update_self]
    change (Option.map _ (s.sockets.sockets id)).bind _ = _
    cases s.sockets.sockets id with
    | none | some => rfl
  · rw [update_of_ne hj]

theorem queue_joinQueue [RingBuffer R] (s : IpcState R) (id : Nat) {target key : Str} (h : key ≠ target) :
    (s.joinQueue id target).sockets.pendingConnections key = s.sockets.pendingConnections key :=
  update_of_ne h _ _

theorem Joins.targetKey [RingBuffer R] {id : Nat} (h : Joins w id a w')
    (hkey : (w'.ipc.sockets.sockets socketId).bind localAddr = some key)
    {conn : PendingConnection} (hqueue : w'.ipc.sockets.pendingConnections key =
      w.ipc.sockets.pendingConnections key ++ [conn]) :
    targetKey a = (w.ipc.sockets.sockets socketId).bind localAddr := by
  cases h with
  | queued target htarget =>
    have hsame : key = target := by
      by_contra hne
      exact append_singleton_ne _ _ ((queue_joinQueue w.ipc id hne).symm.trans hqueue)
    rw [htarget, ← hsame, ← hkey]
    exact localAddr_joinQueue w.ipc id target socketId
  | refused => exact absurd hqueue (append_singleton_ne _ _)

variable [ManagedTables T]

/-- The grate binds a socket of its own: one that a descriptor stands for, or an
    internet socket that the grate takes over. -/
inductive MayBind (w : World T R) (cage fd socketId : Nat) (addr : List UInt8) : Prop
  | own (e : FDTableEntry) (he : w.look (cage, fd) = some e) (hkind : e.fdkind = ipcSocket)
      (hunder : e.underfd = socketId) (hfamily : family addr = afUnix) (hlen : 2 ≤ addr.length)
  | inet (hpending : w.ipc.pendingInet (cage, fd) = some socketId)
      (htable : w.hasTable cage = true) (hlt : fd < fdLimit T) (hfamily : family addr = afInet)
      (hloop : isLoopback addr = true) (hlen : 4 ≤ addr.length)

/-- A connection to an address is queued where a socket accepts from. -/
def Reaches [RingBuffer R] (w : World T R) (cage fd : Nat) (addr : List UInt8) (answer : Int)
    (socketId : Nat) : Prop :=
  ∃ w' key conn, w.connect cage fd addr answer = .ok (some 0, w') ∧
    (w'.ipc.sockets.sockets socketId).bind SocketInfo.localAddr = some key ∧
    w'.ipc.sockets.pendingConnections key = w.ipc.sockets.pendingConnections key ++ [conn]

/-- `getsockname` gives a caller with a buffer of any length as much of an
    address with this meaning as fits, and its full length. -/
def Reports (w : World T R) (cage fd : Nat) (name : Name) : Prop :=
  ∀ userLen answer, ∃ addr, w.getsockname cage fd (some userLen) answer =
    .ok ((some 0, w), some (addr.take userLen, addr.length)) ∧ denotes addr = some name

/-- No other socket with a descriptor has a port. -/
def HoldsAlone (w : World T R) (socketId n : Nat) : Prop :=
  ∀ k e, w.look k = some e → e.fdkind = ipcSocket → e.underfd ≠ socketId →
    (w.ipc.sockets.sockets e.underfd).bind SocketInfo.localAddr ≠ some (inetKey n)

/-- After a socket was bound to `b`, a connection to `a` reaches it only if both
    denote the same, as long as the socket keeps its address; `getsockname`
    reports what it was bound to; and a socket bound to port zero has a port of
    its own. -/
structure AddressFaithful [RingBuffer R] (w : World T R) (cage fd socketId : Nat)
    (a b : List UInt8) : Prop where
  reach : ∀ (w' : World T R) cage' fd' answer, Idle w' →
    (w'.ipc.sockets.sockets socketId).bind SocketInfo.localAddr =
      (w.ipc.sockets.sockets socketId).bind SocketInfo.localAddr →
    Reaches w' cage' fd' a answer socketId → denotes a = denotes b
  path : ∀ bytes, denotes b = some (.path bytes) → bytes.length ≤ 107 →
    Reports w cage fd (.path bytes)
  inet : ∀ n, n ≠ 0 → denotes b = some (.inet localHost n) → ip b = localHost →
    Reports w cage fd (.inet localHost n)
  port : denotes b = some (.inet localHost 0) →
    ∃ n, n ≠ 0 ∧ Reports w cage fd (.inet localHost n) ∧ HoldsAlone w socketId n

/-- What binding leaves behind. -/
structure BoundBy (w : World T R) (cage fd socketId : Nat) (key : Str) (w' : World T R) : Prop where
  idle : Idle w'
  entry : ∃ e, w'.look (cage, fd) = some e ∧ e.fdkind = ipcSocket ∧ e.underfd = socketId
  socket : w'.ipc.sockets.sockets socketId =
    (w.ipc.sockets.sockets socketId).map fun sock => { sock with localAddr := some key }
  bound : w'.ipc.sockets.boundPaths key = some socketId

theorem MayBind.admitted (h : MayBind w cage fd socketId b) : Admitted b := by
  cases h with
  | own _ _ _ _ hfamily hlen => exact ⟨hlen, .inl hfamily⟩
  | inet _ _ _ hfamily _ hlen => exact ⟨by omega, .inr ⟨hfamily, hlen⟩⟩

variable [LawfulManagedTables T]

theorem bind_own (hw : Idle w) (he : w.look (cage, fd) = some e) (hkind : e.fdkind = ipcSocket)
    (hfamily : family b = afUnix) (hlen : 2 ≤ b.length) (answer : Int) :
    w.bind cage fd b answer =
      .ok (some 0, w.withIpc (·.bindSocket e.underfd (fromUtf8Lossy (pathBytes b)))) := by
  rw [World.bind, if_neg (by omega), lookupIpcFd_idle hw, ipcEntry_eq_some.mpr ⟨he, .inr hkind⟩]
  simp only [Option.filter, hkind, hfamily, and_self, decide_true, if_true]
  rfl

theorem bind_inet (hw : Idle w) (hpending : w.ipc.pendingInet (cage, fd) = some socketId)
    (htable : w.hasTable cage = true) (hfamily : family b = afInet)
    (hloop : isLoopback b = true) (hport : port b = some n) (hlen : 4 ≤ b.length) (answer : Int) :
    w.bind cage fd b answer = .ok (some 0, (w.takeOver cage fd socketId (w.look (cage, fd))).withIpc
      (·.bindSocket socketId (inetKey n))) := by
  have hfilter : ((w.ipcEntry (cage, fd)).filter fun e =>
      e.fdkind = ipcSocket ∧ family b = afUnix) = none := by
    rw [filter_eq_none_iff]
    intro e _ hc
    exact inet_ne_unix (hfamily.symm.trans (of_decide_eq_true hc).2)
  rw [World.bind, if_neg (by omega), lookupIpcFd_idle hw]
  simp only
  rw [hfilter]
  simp only [hpending, hfamily, if_true]
  rw [bindInet, hport]
  simp only [hloop, if_true, translateToUnderfd_idle hw]
  exact if_pos htable

theorem bind_mayBind (hw : Idle w) (h : MayBind w cage fd socketId b) (answer : Int) :
    ∃ w' key, targetKey b = some key ∧ w.bind cage fd b answer = .ok (some 0, w') ∧
      BoundBy w cage fd socketId key w' := by
  cases h with
  | own e he hkind hunder hfamily hlen =>
    refine ⟨_, _, targetKey_unix hfamily, bind_own hw he hkind hfamily hlen answer, hw,
      ⟨e, he, hkind, hunder⟩, ?_, ?_⟩
    · rw [hunder]
      exact update_self ..
    · rw [hunder]
      exact update_self ..
  | inet hpending htable hlt hfamily hloop hlen =>
    rcases port_isSome hlen with ⟨n, hport⟩
    have hkey : targetKey b = some (inetKey n) := by
      rw [targetKey_inet hfamily, hport]
      rfl
    refine ⟨_, _, hkey, bind_inet hw hpending htable hfamily hloop hport hlen answer, ?_⟩
    let entry : FDTableEntry := ⟨ipcSocket, socketId,
      (w.look (cage, fd)).any FDTableEntry.shouldCloexec,
      ((w.look (cage, fd)).map FDTableEntry.perfdinfo).getD 0⟩
    have hset : Sets w (cage, fd) entry _ := set_of_getSpecific htable hlt
    refine ⟨hset.pending.trans hw, ⟨entry, ?_, rfl, rfl⟩, ?_, update_self ..⟩
    · refine (congrFun hset.look (cage, fd)).trans ?_
      exact update_self ..
    · refine (update_self ..).trans ?_
      refine congrArg (Option.map _) ?_
      exact congrArg (fun r : SocketRegistry => r.sockets socketId)
        ((congrArg IpcState.sockets hset.ipc).trans (sockets_fire w _))

theorem reports_iff (hw : Idle w) (he : w.look (cage, fd) = some e) (hkind : e.fdkind = ipcSocket)
    (hsock : w.ipc.sockets.sockets e.underfd = some sock) (name : Name) :
    Reports w cage fd name ↔
      denotes (buildIpcSockaddr sock.domain sock.localAddr) = some name := by
  have hcall : ∀ userLen answer, w.getsockname cage fd (some userLen) answer =
      .ok ((some 0, w), some ((buildIpcSockaddr sock.domain sock.localAddr).take userLen,
        (buildIpcSockaddr sock.domain sock.localAddr).length)) := by
    intro userLen answer
    rw [getsockname, lookupIpcFd_idle hw, ipcEntry_eq_some.mpr ⟨he, .inr hkind⟩]
    simp only [hkind, if_true, hsock]
    rfl
  constructor
  · intro h
    -- A buffer that is long enough gets the whole address.
    rcases h (buildIpcSockaddr sock.domain sock.localAddr).length 0 with ⟨addr, haddr, hname⟩
    rw [hcall, take_length] at haddr
    simp only [Except.ok.injEq, Prod.mk.injEq, some.injEq, true_and] at haddr
    rw [haddr.2, take_length] at haddr
    rw [haddr.1]
    exact hname
  · intro h userLen answer
    exact ⟨_, hcall userLen answer, h⟩

theorem sockets_takeOver (ht : w.hasTable cage = true) (fd socketId : Nat)
    (old : Option FDTableEntry) :
    (w.takeOver cage fd socketId old).ipc.sockets = w.ipc.sockets := by
  change (w.getSpecific cage fd _).ipc.sockets = _
  rcases getSpecific_cases ht fd _ with hset | ⟨_, hsame⟩
  · rw [hset.ipc, sockets_fire]
  · rw [hsame]

variable [RingBuffer R]

theorem targetKey_of_reaches {answer : Int} (hw : Idle w)
    (h : Reaches w cage fd a answer socketId) :
    targetKey a = (w.ipc.sockets.sockets socketId).bind localAddr := by
  rcases h with ⟨w', key, conn, hconnect, hkey, hqueue⟩
  cases connect_cases hw hconnect with
  | own _ _ _ _ hjoin => exact hjoin.targetKey hkey hqueue
  | takesOver socketId _ _ ht hjoin =>
    have hsame := sockets_takeOver ht fd socketId (w.look (cage, fd))
    rw [← hsame]
    rw [← hsame] at hqueue
    exact hjoin.targetKey hkey hqueue
  | abandons | same => exact absurd hqueue (append_singleton_ne _ _)

theorem reaches_of_targetKey (hw : Idle w) (he : w.look (cage, fd) = some e)
    (hkind : e.fdkind = ipcSocket) (ha : Admitted a) (hkey : targetKey a = some key)
    (hlocal : (w.ipc.sockets.sockets socketId).bind localAddr = some key)
    (hbound : w.ipc.sockets.boundPaths key = some socketId) (answer : Int) :
    Reaches w cage fd a answer socketId := by
  have hto : w.connectSocket e.underfd a = w.connectTo e.underfd key := by
    rw [connectSocket]
    rcases ha.2 with hfamily | ⟨hfamily, hlen⟩
    · rw [if_pos hfamily]
      rw [targetKey_unix hfamily, some.injEq] at hkey
      rw [← hkey]
      rfl
    rcases port_isSome hlen with ⟨n, hport⟩
    rw [if_neg (by rw [hfamily]; exact inet_ne_unix), if_pos hfamily, hport]
    rw [targetKey_inet hfamily, hport, map_some, some.injEq] at hkey
    rw [← hkey]
  have hconnect : w.connect cage fd a answer =
      .ok (some 0, w.withIpc (·.joinQueue e.underfd key)) := by
    have hlen := ha.1
    rw [World.connect, if_neg (by omega), lookupIpcFd_idle hw,
      ipcEntry_eq_some.mpr ⟨he, .inr hkind⟩]
    simp only [hkind, if_true, hto]
    rw [connectTo, if_neg (by rw [hbound]; exact some_ne_none _)]
    rfl
  refine ⟨_, key, _, hconnect, ?_, update_self ..⟩
  exact (localAddr_joinQueue w.ipc e.underfd key socketId).trans hlocal

/-- A socket is faithfully named exactly if its address is plain. -/
theorem address_faithful_iff (hw : Idle w) (hb : MayBind w cage fd socketId b)
    (hsock : w.ipc.sockets.sockets socketId = some sock) (ha : Admitted a) (answer : Int) :
    ∃ w', w.bind cage fd b answer = .ok (some 0, w') ∧
      (AddressFaithful w' cage fd socketId a b ↔ AddressPlain sock.domain a b) := by
  rcases bind_mayBind hw hb answer with ⟨w', key, hkey, hbind, hbound⟩
  rcases hbound.entry with ⟨e, he, hkind, hunder⟩
  have hsock' : w'.ipc.sockets.sockets socketId = some { sock with localAddr := some key } := by
    rw [hbound.socket, hsock]
    rfl
  have hlocal : (w'.ipc.sockets.sockets socketId).bind localAddr = some key := by
    rw [hsock']
    rfl
  have hreports := reports_iff hbound.idle he hkind (hunder ▸ hsock')
  have hconfused := confused_iff ha hb.admitted
  have hpath : ∀ bytes, denotes b = some (.path bytes) → bytes.length ≤ 107 →
      (Reports w' cage fd (.path bytes) ↔ sock.domain = afUnix ∧ CutText 107 bytes) := by
    intro bytes hbytes hlen
    rcases denotes_eq_path hbytes with ⟨hfamily, hpath, hne, hzero⟩
    rw [targetKey_unix hfamily, hpath, some.injEq] at hkey
    rw [hreports, ← hkey]
    exact reports_path hne hzero hlen sock.domain
  have hinet : ∀ n m, denotes b = some (.inet localHost n) →
      (Reports w' cage fd (.inet localHost m) ↔ sock.domain = afInet ∧ m = n) := by
    intro n m hname
    rcases denotes_eq_inet hname with ⟨hfamily, hport⟩
    rw [targetKey_inet hfamily, hport, map_some, some.injEq] at hkey
    rw [hreports, ← hkey]
    exact reports_inet (port_lt hport) sock.domain
  refine ⟨w', hbind, fun h => ⟨?_, ?_, ?_, ?_⟩, fun h => ⟨?_, ?_, ?_, ?_⟩⟩
  · -- The socket reaches itself if the addresses are confused.
    by_cases hc : Confused a b
    · have hreach := reaches_of_targetKey hbound.idle he hkind ha
        ((hconfused.mpr hc).trans hkey) hlocal hbound.bound answer
      exact .inl (h.reach w' cage fd answer hbound.idle rfl hreach)
    · exact .inr hc
  · intro bytes hbytes hlen
    exact (hpath bytes hbytes hlen).mp (h.path bytes hbytes hlen)
  · intro n hn hname hip
    exact ((hinet n n hname).mp (h.inet n hn hname hip)).1
  · intro hname
    rcases h.port hname with ⟨n, hn, hreport, _⟩
    exact hn ((hinet 0 n hname).mp hreport).2
  · intro w₂ cage' fd' answer' hw₂ hsame hreach
    have hc : Confused a b := by
      rw [← hconfused, targetKey_of_reaches hw₂ hreach, hsame, hlocal, hkey]
    exact h.reach.resolve_right (not_not.mpr hc)
  · intro bytes hbytes hlen
    exact (hpath bytes hbytes hlen).mpr (h.path bytes hbytes hlen)
  · intro n hn hname hip
    exact (hinet n n hname).mpr ⟨h.inet n hn hname hip, rfl⟩
  · intro hname
    exact absurd hname h.port

end Binding

/-- A local socket and an internet socket. -/
def twoSocketsRun : List Call :=
  [.socket 1 afUnix sockStream 0, .socket 1 afInet sockStream 9]

theorem address_faithful_twoSocketsRun :
    ∃ w w₁ w₂ : World (MapTables 16) QueueRing,
      Runs Initial World.step (fun w call => Promised w call = true) w ∧
      -- The path "/s", and connections to "/t".
      w.bind 1 3 [1, 0, 47, 115, 0] 0 = .ok (some 0, w₁) ∧
      AddressFaithful w₁ 1 3 0 [1, 0, 47, 116] [1, 0, 47, 115, 0] ∧
      -- Port 80, and connections to port 443.
      w.bind 1 4 [2, 0, 0, 80, 127, 0, 0, 1] 0 = .ok (some 0, w₂) ∧
      AddressFaithful w₂ 1 4 1 [2, 0, 1, 187, 127, 0, 0, 1] [2, 0, 0, 80, 127, 0, 0, 1] := by
  have := lawful_managedMapTables 16 (by decide) (by decide)
  have hrun : ∃ w : World (MapTables 16) QueueRing,
      Runs Initial World.step (fun w call => Promised w call = true) w ∧ w.pending.length = 0 ∧
      w.look (1, 3) = some (socketEntry 0 sockStream) ∧
      w.ipc.pendingInet (1, 4) = some 1 ∧ w.hasTable 1 = true ∧
      w.ipc.sockets.sockets 0 =
        some ⟨afUnix, sockStream, .notConnected, none, none, none, none⟩ ∧
      w.ipc.sockets.sockets 1 =
        some ⟨afInet, sockStream, .notConnected, none, none, none, none⟩ :=
    exists_runs_replay twoSocketsRun initial_emptyTables (by decide +kernel)
  rcases hrun with ⟨w, hw, hpending, hlook, hinet, htable, hsock₀, hsock₁⟩
  have hidle : Idle w := length_eq_zero_iff.mp hpending
  have hunix : MayBind w 1 3 0 [1, 0, 47, 115, 0] :=
    .own _ hlook rfl rfl (by decide) (by decide)
  have hport : MayBind w 1 4 1 [2, 0, 0, 80, 127, 0, 0, 1] :=
    .inet hinet htable (by decide) (by decide) (by decide) (by decide)
  rcases address_faithful_iff hidle hunix hsock₀ (a := [1, 0, 47, 116])
    ⟨by decide, .inl (by decide)⟩ 0 with ⟨w₁, hbind₁, hiff₁⟩
  rcases address_faithful_iff hidle hport hsock₁ (a := [2, 0, 1, 187, 127, 0, 0, 1])
    ⟨by decide, .inr ⟨by decide, by decide⟩⟩ 0 with ⟨w₂, hbind₂, hiff₂⟩
  have hplain₁ : AddressPlain afUnix [1, 0, 47, 116] [1, 0, 47, 115, 0] :=
    addressPlain_of_text (s := ['/', 't']) (t := ['/', 's']) (by decide) (by decide)
  have hplain₂ : AddressPlain afInet [2, 0, 1, 187, 127, 0, 0, 1] [2, 0, 0, 80, 127, 0, 0, 1] :=
    addressPlain_of_ports (m := 443) (n := 80) (by decide) (by decide) (by decide)
  exact ⟨w, w₁, w₂, hw, hbind₁, hiff₁.mpr hplain₁, hbind₂, hiff₂.mpr hplain₂⟩

/-- A listening socket of one cage and a socket of another. -/
def strangersRun : List Call :=
  [.socket 1 afUnix sockStream 0, .listen 1 3 0, .socket 2 afUnix sockStream 0]

/-- The listener is bound to a path of one byte and reached through another. -/
theorem address_confused :
    ∃ w w' : World (MapTables 16) QueueRing,
      Runs Initial World.step (fun w call => Promised w call = true) w ∧
      w.bind 1 3 [1, 0, 0xFE] 0 = .ok (some 0, w') ∧
      (w'.ipc.sockets.sockets 0).map SocketInfo.state = some .listening ∧
      Reaches w' 2 3 [1, 0, 0xFF] 0 0 ∧
      denotes [1, 0, 0xFE] = some (.path [0xFE]) ∧ denotes [1, 0, 0xFF] = some (.path [0xFF]) := by
  have := lawful_managedMapTables 16 (by decide) (by decide)
  have hrun : ∃ w : World (MapTables 16) QueueRing,
      Runs Initial World.step (fun w call => Promised w call = true) w ∧ w.pending.length = 0 ∧
      w.look (1, 3) = some (socketEntry 0 sockStream) ∧
      w.look (2, 3) = some (socketEntry 1 sockStream) ∧
      w.ipc.sockets.sockets 0 =
        some ⟨afUnix, sockStream, .listening, none, none, none, none⟩ :=
    exists_runs_replay strangersRun initial_emptyTables (by decide +kernel)
  rcases hrun with ⟨w, hw, hpending, hlook₁, hlook₂, hsock⟩
  have hidle : Idle w := length_eq_zero_iff.mp hpending
  let key := fromUtf8Lossy [0xFE]
  let w' : World (MapTables 16) QueueRing := w.withIpc (·.bindSocket 0 key)
  have hbind : w.bind 1 3 [1, 0, 0xFE] 0 = .ok (some 0, w') :=
    bind_own hidle hlook₁ rfl (by decide) (by decide) 0
  have hsock' : w'.ipc.sockets.sockets 0 =
      some ⟨afUnix, sockStream, .listening, some key, none, none, none⟩ := by
    change update w.ipc.sockets.sockets 0 ((w.ipc.sockets.sockets 0).map _) 0 = _
    rw [update_self, hsock]
    rfl
  have hlocal : (w'.ipc.sockets.sockets 0).bind localAddr = some key := by
    rw [hsock']
    rfl
  have hbound : w'.ipc.sockets.boundPaths key = some 0 := by
    change update w.ipc.sockets.boundPaths key (some 0) key = _
    exact update_self ..
  have hread : targetKey [1, 0, 0xFF] = some key := by
    decide +kernel
  refine ⟨w, w', hw, hbind, ?_, ?_, by decide, by decide⟩
  · rw [hsock']
    rfl
  · have hlook' : w'.look (2, 3) = some (socketEntry 1 sockStream) := hlook₂
    have hidle' : Idle w' := hidle
    exact reaches_of_targetKey hidle' hlook' rfl ⟨by decide, .inl (by decide)⟩ hread hlocal hbound 0

end LindGrates.Ipc
