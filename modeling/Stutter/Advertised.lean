import Stutter.Reply
import Stutter.Request

namespace Stutter

theorem decimal_injective : Function.Injective decimal := fun m n h => by
  rw [← numeral_decimal m, ← numeral_decimal n, h]

/-- A length that went through an `int` is written as it is, exactly if it fits. -/
theorem decimalInt_toInt32 (n : ℕ) : decimalInt (toInt32 n) = decimal n ↔ (n : ℤ) ≤ INT_MAX := by
  constructor
  · intro h
    by_contra hn
    have hlt := toInt32_lt (not_le.mp hn)
    rw [decimalInt] at h
    split_ifs at h with hneg
    · have hd := isNum_decimal n '-'.toUInt8 (h ▸ List.mem_cons_self)
      exact absurd hd (by decide)
    · have := decimal_injective h
      omega
  · intro h
    rw [toInt32_natCast h, decimalInt_natCast]

namespace Body

/-- The part in memory and the part on disk are all that the body counts. -/
theorem length_add_sizeOnDisk (b : Body) : b.data.length + b.sizeOnDisk = b.size := by
  have h := b.sized
  rw [sizeOnDisk]
  omega

/-- Wherever the length of the body is announced, it is the number of bytes that are transmitted. -/
structure Advertised (b : Body) : Prop where
  reply : ∀ r : Reply, r.message.body = b →
    r.prepare.message.getHeader Message.contentLength = decimal (b.data.length + b.sizeOnDisk)
  request : ∀ r : Request, r.message.body = b → r.verb ≠ .get →
    r.prepare.message.getHeader Message.contentLength = decimal (b.data.length + b.sizeOnDisk)
  file : ∀ (E : Env) (r r' : Reply) (fs fs' : Fs) (name : Bytes),
    r.setFile E fs name = (true, r', fs') → r'.message.body = b →
    r'.message.getHeader Message.contentLength = decimal (b.data.length + b.sizeOnDisk)

end Body

theorem Message.getHeader_addHeaderInt (m : Message) (key : Bytes) (n : ℕ) :
    (m.addHeaderInt key n).getHeader key = decimalInt (toInt32 n) := by
  rw [addHeaderInt, getHeader_addHeader, if_pos rfl]

namespace Reply

theorem contentLength_prepare (r : Reply) :
    r.prepare.message.getHeader Message.contentLength =
      decimalInt (toInt32 r.message.body.size) := by
  change r.prepareHeaders.getHeader Message.contentLength = _
  rw [prepareHeaders]
  split_ifs <;> exact Message.getHeader_addHeaderInt ..

theorem contentLength_setFile {E : Env} {r r' : Reply} {fs fs' : Fs} {name : Bytes}
    (h : r.setFile E fs name = (true, r', fs')) :
    r'.message.getHeader Message.contentLength = decimalInt (toInt32 r'.message.body.size) := by
  rw [setFile] at h
  generalize r.message.body.setFile E fs name = x at h
  obtain ⟨_ | _, body, fs₁⟩ := x
  · exact Bool.noConfusion (congrArg Prod.fst h)
  · obtain ⟨-, rfl, -⟩ := Prod.mk.injEq .. ▸ Prod.mk.injEq .. ▸ h
    exact Message.getHeader_addHeaderInt ..

end Reply

theorem Request.contentLength_prepare {r : Request} (h : r.verb ≠ .get) :
    r.prepare.message.getHeader Message.contentLength =
      decimalInt (toInt32 r.message.body.size) := by
  have hp : r.prepareHeaders.getHeader Message.contentLength =
      decimalInt (toInt32 r.message.body.size) := by
    rw [prepareHeaders, if_pos h]
    exact Message.getHeader_addHeaderInt ..
  rw [prepare]
  dsimp only
  split_ifs <;> exact hp

namespace Body

/-- The announced length is the transmitted one, exactly if it fits into an `int`. -/
theorem advertised_iff (b : Body) : b.Advertised ↔ (b.size : ℤ) ≤ INT_MAX := by
  constructor
  · intro h
    have hr := h.reply ⟨⟨.empty, [], b⟩, 200, [], 1, 1⟩ rfl
    rwa [Reply.contentLength_prepare, length_add_sizeOnDisk, decimalInt_toInt32] at hr
  · intro h
    have hd := (decimalInt_toInt32 b.size).mpr h
    rw [← length_add_sizeOnDisk] at hd
    refine ⟨?_, ?_, ?_⟩
    · rintro r rfl
      rw [Reply.contentLength_prepare, ← hd, length_add_sizeOnDisk]
    · rintro r rfl hv
      rw [Request.contentLength_prepare hv, ← hd, length_add_sizeOnDisk]
    · rintro E r r' fs fs' name hs rfl
      rw [Reply.contentLength_setFile hs, ← hd, length_add_sizeOnDisk]

/-- A file of 2 GiB behind the descriptor 3. -/
def twoGiB : Body := ⟨[], [], 3, 2 ^ 31, false, new.bounded, by decide⟩

/-- Its length is announced as a negative number. -/
theorem advertised_negative : twoGiB.data.length + twoGiB.sizeOnDisk = 2147483648 ∧
    (⟨⟨.empty, [], twoGiB⟩, 200, [], 1, 1⟩ : Reply).prepare.message.getHeader
      Message.contentLength = ascii "-2147483648" := by
  constructor <;> decide +kernel

end Body

end Stutter
