import Stutter.Posix

namespace Stutter

def MAX_BUFFER_SIZE : ℕ := 8192

/-- `http::Body`. -/
@[ext]
structure Body where
  data : Bytes
  filename : Bytes
  fd : ℤ
  size : ℕ
  unlink : Bool
  bounded : data.length ≤ MAX_BUFFER_SIZE
  sized : data.length ≤ size

namespace Body

def new : Body := ⟨[], [], -1, 0, false, Nat.zero_le _, le_rfl⟩

/-- The copy constructor. -/
def copy (E : Env) (b : Body) (fs : Fs) : Body × Fs :=
  let (fd, fs) := fs.dup E b.fd
  ({ b with fd := fd, unlink := false }, fs)

def clear (b : Body) (fs : Fs) : Body × Fs :=
  let (fd, fs) := if b.fd > 0 then (-1, fs.close b.fd) else (b.fd, fs)
  let fs := if b.unlink then fs.unlink b.filename else fs
  (⟨[], [], fd, 0, false, Nat.zero_le _, le_rfl⟩, fs)

/-- `m_size += n` -/
def grow (b : Body) (n : ℕ) : Body :=
  { b with size := b.size + n, sized := b.sized.trans (Nat.le_add_right _ _) }

/-- The bytes of `p` that still fit into memory. -/
def insertion (b : Body) (p : Bytes) : ℕ :=
  let avail := MAX_BUFFER_SIZE - b.data.length
  if p.length > avail then avail else p.length

theorem insertion_eq (b : Body) (p : Bytes) :
    b.insertion p = min p.length (MAX_BUFFER_SIZE - b.data.length) := by
  rw [insertion]
  split_ifs <;> omega

theorem length_insertion (b : Body) (p : Bytes) :
    (b.data ++ p.take (b.insertion p)).length = b.data.length + b.insertion p := by
  rw [List.length_append, List.length_take, insertion_eq]
  omega

def bufferInMemory (b : Body) (p : Bytes) : ℤ × Body :=
  (b.insertion p, { b with
    data := b.data ++ p.take (b.insertion p)
    size := b.size + b.insertion p
    bounded := by
      have hb := b.bounded
      rw [length_insertion, insertion_eq]
      omega
    sized := by
      have hs := b.sized
      rw [length_insertion]
      omega })

def createFile (E : Env) (b : Body) (fs : Fs) : Bool × Body × Fs :=
  if b.fd > 0 then (true, b, fs)
  else
    let (name, fd, fs) := fs.mkstemp E
    if fd > 0 then (true, { b with fd := fd, filename := name, unlink := true }, fs)
    else (false, { b with fd := fd }, fs)

def bufferOnDisk (E : Env) (b : Body) (fs : Fs) (p : Bytes) : ℤ × Body × Fs :=
  match b.createFile E fs with
  | (false, b, fs) => (-1, b, fs)
  | (true, b, fs) =>
    let (n, fs) := fs.write E b.fd p
    -- the count goes through an `int`
    let ret := toInt32 n
    if ret > 0 then (ret, b.grow ret.toNat, fs) else (ret, b, fs)

def add (E : Env) (b : Body) (fs : Fs) (p : Bytes) : ℤ × Body × Fs :=
  if b.data.length = MAX_BUFFER_SIZE then b.bufferOnDisk E fs p
  else
    let (n, b) := b.bufferInMemory p
    (n, b, fs)

/-- `set_file`, with its result. -/
def setFile (E : Env) (b : Body) (fs : Fs) (name : Bytes) : Bool × Body × Fs :=
  match fs.openRead E name with
  | (fd, fs) =>
    if fd < 0 then (false, b, fs)
    else
      let (b, fs) := b.clear fs
      let size := (fs.fstat E fd).getD b.size
      (true, ⟨[], name, fd, size, b.unlink, Nat.zero_le _, Nat.zero_le _⟩, fs)

/-- `size_on_disk`; by `sized` the subtraction does not wrap. -/
def sizeOnDisk (b : Body) : ℕ := b.size - b.data.length

/-- The file behind the body, which `send_buffered_body` takes for missing unless `0 < m_fd`. -/
def file (b : Body) (fs : Fs) : Bytes := if b.fd > 0 then fs.contents b.fd else []

/-- The buffer in memory, then what `send_buffered_body` transmits of the file. -/
def content (b : Body) (fs : Fs) : Bytes := b.data ++ (b.file fs).take b.sizeOnDisk

/-- `Message::add_body`, `done` bytes into `p`; `none` if the fuel runs out. -/
def addLoop (E : Env) (p : Bytes) : ℕ → ℕ → Body → Fs → Option (Body × Fs)
  | fuel, done, b, fs =>
    if done = p.length then some (b, fs)
    else match fuel with
    | 0 => none
    | fuel + 1 =>
      match b.add E fs (p.drop done) with
      | (added, b, fs) =>
        if added ≤ 0 then some (b, fs) else addLoop E p fuel (done + added.toNat) b fs

def addBody (E : Env) (b : Body) (fs : Fs) (p : Bytes) : Option (Body × Fs) :=
  addLoop E p p.length 0 b fs

/-- One `add_body` after another. -/
def addAll (E : Env) (b : Body) (fs : Fs) (frags : List Bytes) : Option (Body × Fs) :=
  frags.foldlM (fun s frag => addBody E s.1 s.2 frag) (b, fs)

/-- What a body shows: the two parts, and what it says of their lengths. -/
structure View where
  memory : Bytes
  disk : Bytes
  size : ℕ
  sizeOnDisk : ℕ
  deriving DecidableEq

def view (b : Body) (fs : Fs) : View := ⟨b.data, b.file fs, b.size, b.sizeOnDisk⟩

/-- What a body that holds `content` shows. -/
def View.of (content : Bytes) : View where
  memory := content.take MAX_BUFFER_SIZE
  disk := content.drop MAX_BUFFER_SIZE
  size := content.length
  sizeOnDisk := content.length - MAX_BUFFER_SIZE

/-- A body that holds nothing and has no file. -/
structure IsEmpty (b : Body) : Prop where
  data : b.data = []
  size : b.size = 0
  fd : b.fd ≤ 0

theorem new_isEmpty : new.IsEmpty := ⟨rfl, rfl, by decide⟩

theorem clear_isEmpty (b : Body) (fs : Fs) : (b.clear fs).1.IsEmpty := by
  by_cases h : b.fd > 0 <;> simp only [clear, h, if_true, if_false]
  · exact ⟨rfl, rfl, by decide⟩
  · exact ⟨rfl, rfl, not_lt.mp h⟩

end Body

end Stutter
