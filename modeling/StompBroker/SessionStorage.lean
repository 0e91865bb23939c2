import StompBroker.BitFlags

/-! Session storage: the table of registered file descriptors and the ids that travel
with messages. An id is a descriptor with two flag bits above it; the table stores the
descriptor with its encoded flag. -/
namespace StompBroker.SessionStorage
open BitFlags

/-- A C `int` that holds a descriptor, possibly with flags. -/
abbrev Fd := BitVec 32

def maxNumberOfConnections : ℕ := 0x20000
def fdMask : Fd := 0x3FFF#32
def fdIsEncodedMask : Fd := 0x80000#32
def fdCmdPurgeSession : Fd := 0x100000#32

/-- The poison pill's descriptor. -/
def poisonFd : Fd := -1

def sessionWithoutFlags (fd : Fd) : Fd := fd &&& fdMask
def sessionIsEncoded (fd : Fd) : Bool := (fd &&& fdIsEncodedMask) != 0#32
def sessionSetEncoded (fd : Fd) : Fd := fd ||| fdIsEncodedMask
def sessionIsCmdPurge (fd : Fd) : Bool := (fd &&& fdCmdPurgeSession) != 0#32
def sessionSetCmdPurge (fd : Fd) : Fd := fd ||| fdCmdPurgeSession
def sessionWoCmdPurge (fd : Fd) : Fd := fd &&& (fdIsEncodedMask ||| fdMask)

/-- `clients` is indexed by descriptor; `locks` counts the acquisitions of the session
mutex that have not been released. -/
structure Storage where
  clients : ℕ → Fd
  numberOfClients : ℤ
  locks : ℕ

inductive SessionStatus
  | added (fd : Fd)
  | sessionIsInUse
  | maxSessionNumberExceeded
  deriving DecidableEq, Repr

def sessionStorageInit : Storage := ⟨fun _ => 0, 0, 0⟩

def sessionStorageLock (s : Storage) : Storage := { s with locks := s.locks + 1 }
def sessionStorageUnlock (s : Storage) : Storage := { s with locks := s.locks - 1 }

def sessionStorageAddNew (s : Storage) (fd : Fd) : SessionStatus × Storage :=
  if s.numberOfClients ≥ maxNumberOfConnections ∨ fd.toInt > maxNumberOfConnections then
    (.maxSessionNumberExceeded, s)
  else if (s.clients fd.toNat).toInt > 0 then (.sessionIsInUse, s)
  else (.added fd, { s with
    clients := Function.update s.clients fd.toNat fd
    numberOfClients := s.numberOfClients + 1 })

def sessionStorageRemove (s : Storage) (fd : Fd) : Storage :=
  { s with
    numberOfClients := s.numberOfClients - 1
    clients := Function.update s.clients fd.toNat 0 }

def sessionStorageGet (s : Storage) (fd : Fd) : Fd := s.clients fd.toNat

def sessionStorageIsEncoded (s : Storage) (fd : Fd) : Bool :=
  (s.clients fd.toNat &&& fdIsEncodedMask) != 0#32

def sessionStorageSetEncoded (s : Storage) (fd : Fd) : Storage :=
  { s with clients := Function.update s.clients fd.toNat (fd ||| fdIsEncodedMask) }

/-- An id without its two flags: the descriptor that a session was registered with. -/
def descriptorOf (fd : Fd) : Fd := fd &&& ~~~(fdIsEncodedMask ||| fdCmdPurgeSession)

/-- An id that is not zero and whose descriptor the mask leaves alone. -/
def Addressable (fd : Fd) : Prop := fd ≠ 0 ∧ (descriptorOf fd).toNat ≤ 0x3FFF

instance (fd : Fd) : Decidable (Addressable fd) := inferInstanceAs (Decidable (_ ∧ _))

/-- Every descriptor that the table admits lies below both flag bits. -/
def Plain (fd : Fd) : Prop := fd.toNat < 2 ^ 19

@[simp] theorem sessionWithoutFlags_setEncoded (fd : Fd) :
    sessionWithoutFlags (sessionSetEncoded fd) = sessionWithoutFlags fd :=
  or_and_of_apart (by decide)

@[simp] theorem sessionWithoutFlags_setCmdPurge (fd : Fd) :
    sessionWithoutFlags (sessionSetCmdPurge fd) = sessionWithoutFlags fd :=
  or_and_of_apart (by decide)

@[simp] theorem sessionIsCmdPurge_setCmdPurge (fd : Fd) :
    sessionIsCmdPurge (sessionSetCmdPurge fd) = true := by
  simp only [sessionIsCmdPurge, sessionSetCmdPurge, or_and_self]
  decide

@[simp] theorem sessionIsCmdPurge_setEncoded (fd : Fd) :
    sessionIsCmdPurge (sessionSetEncoded fd) = sessionIsCmdPurge fd := by
  simp only [sessionIsCmdPurge, sessionSetEncoded]
  rw [or_and_of_apart (by decide)]

@[simp] theorem sessionIsEncoded_setEncoded (fd : Fd) :
    sessionIsEncoded (sessionSetEncoded fd) = true := by
  simp only [sessionIsEncoded, sessionSetEncoded, or_and_self]
  decide

theorem toNat_sessionWithoutFlags (fd : Fd) :
    (sessionWithoutFlags fd).toNat = fd.toNat % 2 ^ 14 :=
  toNat_and_lowMask (k := 14) (by omega) fd

theorem sessionWithoutFlags_of_le {fd : Fd} (h : fd.toNat ≤ 0x3FFF) :
    sessionWithoutFlags fd = fd := by
  apply BitVec.eq_of_toNat_eq
  rw [toNat_sessionWithoutFlags]
  omega

theorem sessionWithoutFlags_eq_iff {fd : Fd} :
    sessionWithoutFlags fd = fd ↔ fd.toNat ≤ 0x3FFF := by
  refine ⟨fun h => ?_, sessionWithoutFlags_of_le⟩
  have := congrArg BitVec.toNat h
  rw [toNat_sessionWithoutFlags] at this
  omega

@[simp] theorem sessionWithoutFlags_descriptorOf (fd : Fd) :
    sessionWithoutFlags (descriptorOf fd) = sessionWithoutFlags fd := by
  have hmask : ~~~(fdIsEncodedMask ||| fdCmdPurgeSession) &&& fdMask = fdMask := by decide
  rw [sessionWithoutFlags, descriptorOf, BitVec.and_assoc, hmask, sessionWithoutFlags]

/-- The mask reaches the descriptors of fourteen bits. -/
theorem sessionWithoutFlags_eq_descriptorOf_iff {fd : Fd} :
    sessionWithoutFlags fd = descriptorOf fd ↔ (descriptorOf fd).toNat ≤ 0x3FFF := by
  rw [← sessionWithoutFlags_descriptorOf fd]
  exact sessionWithoutFlags_eq_iff

theorem Addressable.socket_eq {fd : Fd} (h : Addressable fd) : sessionWithoutFlags fd = descriptorOf fd :=
  sessionWithoutFlags_eq_descriptorOf_iff.2 h.2

theorem Addressable.not_poison {fd : Fd} (h : Addressable fd) : fd ≠ poisonFd := by
  rintro rfl
  exact absurd h.2 (by decide)

theorem plain_of_admitted {fd : Fd} (h : fd.toNat ≤ maxNumberOfConnections) : Plain fd := by
  unfold Plain
  unfold maxNumberOfConnections at h
  omega

theorem plain_of_le {fd : Fd} (h : fd.toNat ≤ 0x3FFF) : Plain fd :=
  plain_of_admitted (h.trans (by decide))

theorem Plain.encoded_apart {fd : Fd} (h : Plain fd) : fd &&& fdIsEncodedMask = 0#32 :=
  and_eq_zero_of_lt h (by decide)

theorem Plain.purge_apart {fd : Fd} (h : Plain fd) : fd &&& fdCmdPurgeSession = 0#32 :=
  and_eq_zero_of_lt h (by decide)

theorem Plain.sessionIsCmdPurge_eq {fd : Fd} (h : Plain fd) : sessionIsCmdPurge fd = false := by
  simp [sessionIsCmdPurge, h.purge_apart]

theorem Plain.sessionSetEncoded_ne {fd g : Fd} (h : Plain fd) : fd ≠ sessionSetEncoded g := by
  intro he
  have hs := sessionIsEncoded_setEncoded g
  rw [← he] at hs
  simp [sessionIsEncoded, h.encoded_apart] at hs

theorem sessionSetEncoded_inj {fd g : Fd} (hf : Plain fd) (hg : Plain g) :
    sessionSetEncoded fd = sessionSetEncoded g ↔ fd = g :=
  ⟨or_injective_of_apart hf.encoded_apart hg.encoded_apart, fun h => by rw [h]⟩

theorem sessionWithoutFlags_plain (fd : Fd) : Plain (sessionWithoutFlags fd) := by
  have := toNat_sessionWithoutFlags fd
  have := Nat.mod_lt fd.toNat (show 0 < 2 ^ 14 by omega)
  unfold Plain
  omega

/-- Dropping the purge flag of a bare descriptor leaves its masked number. -/
theorem Plain.sessionWoCmdPurge_setCmdPurge {fd : Fd} (h : Plain fd) :
    sessionWoCmdPurge (sessionSetCmdPurge fd) = sessionWithoutFlags fd := by
  unfold sessionWoCmdPurge sessionSetCmdPurge sessionWithoutFlags
  rw [or_and_of_apart (by decide), BitVec.and_or_distrib_left, h.encoded_apart, BitVec.zero_or]

theorem sessionWoCmdPurge_setCmdPurge_setEncoded (fd : Fd) :
    sessionWoCmdPurge (sessionSetCmdPurge (sessionSetEncoded fd)) =
      sessionSetEncoded (sessionWithoutFlags fd) := by
  unfold sessionWoCmdPurge sessionSetCmdPurge sessionSetEncoded sessionWithoutFlags
  rw [or_and_of_apart (by decide), BitVec.and_or_distrib_left, or_and_self,
    or_and_of_apart (by decide), BitVec.or_comm]

end StompBroker.SessionStorage
