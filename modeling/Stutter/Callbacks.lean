import Stutter.Joyent.Wire
import Stutter.Session

namespace Stutter

open Joyent

namespace Message

variable {E : Env}

theorem addBody_eq (hE : E.Reliable) (m : Message) (fs : Fs) (p : Bytes) : m.addBody E fs p =
    ({ m with body := (m.body.store E fs p).1 }, (m.body.store E fs p).2) := by
  rw [addBody, Body.addBody_reliable hE]

theorem addBody_append (hE : E.Reliable) (m : Message) (fs : Fs) (p q : Bytes) :
    m.addBody E fs (p ++ q) = (m.addBody E fs p).1.addBody E (m.addBody E fs p).2 q := by
  simp only [addBody_eq hE, Body.store_append hE.toHealthy]

end Message

namespace Session

variable {χ : Type} {E : Env}

theorem msg_setMsg (u : Session χ) (m : Message) (fs : Fs) :
    { u.setMsg m with fs := fs }.msg = m := by
  rcases u with ⟨_ | _⟩ <;> rfl

theorem setMsg_setMsg (u : Session χ) (m m' : Message) (fs fs' : Fs) :
    { { u.setMsg m with fs := fs }.setMsg m' with fs := fs' } =
      { u.setMsg m' with fs := fs' } := by
  rcases u with ⟨_ | _⟩ <;> rfl

theorem addBodyFragment_append (hE : E.Reliable) (u : Session χ) (f g : Bytes) :
    u.addBodyFragment E (f ++ g) = (u.addBodyFragment E f).addBodyFragment E g := by
  by_cases h : u.error ≠ .bodyTooLarge
  · have h' : { u.setMsg (u.msg.addBody E u.fs f).1 with
        fs := (u.msg.addBody E u.fs f).2 }.error ≠ .bodyTooLarge := by
      change (u.setMsg _).error ≠ _
      rwa [error_setMsg]
    rw [addBodyFragment, if_pos h, addBodyFragment.eq_def E u f, if_pos h, addBodyFragment]
    dsimp only at h' ⊢
    rw [if_pos h', msg_setMsg, setMsg_setMsg, Message.addBody_append hE]
  · simp only [addBodyFragment, if_neg h]

/-- The URL with one more fragment, which may be too long. -/
theorem addUrlFragment_fits {u : Session χ} (hm : u.mode = .request) {f : Bytes} :
    (u.addUrlFragment f).error ≠ .uriTooLong ↔
      u.error ≠ .uriTooLong ∧ u.request.url.length + f.length ≤ MAX_URI_LENGTH := by
  rw [addUrlFragment]
  by_cases he : u.error = .uriTooLong
  · rw [if_neg fun h => h.2 he]
    exact ⟨fun h => absurd he h, fun h => absurd he h.1⟩
  rw [if_pos ⟨hm, he⟩]
  split_ifs with hl
  · exact ⟨fun h => absurd rfl h, fun h => absurd h.2 hl.not_ge⟩
  · exact ⟨fun _ => ⟨he, not_lt.mp hl⟩, fun _ => he⟩

theorem addUrlFragment_eq {u : Session χ} (hm : u.mode = .request) {f : Bytes}
    (he : u.error ≠ .uriTooLong) (hl : u.request.url.length + f.length ≤ MAX_URI_LENGTH) :
    u.addUrlFragment f = { u with request := u.request.addUrlFragment f } := by
  rw [addUrlFragment, if_pos ⟨hm, he⟩, if_neg hl.not_gt]

theorem addUrlFragment_response {u : Session χ} (hm : u.mode ≠ .request) (f : Bytes) :
    u.addUrlFragment f = u := by
  rw [addUrlFragment, if_neg fun h => hm h.1]

theorem addUrlFragment_append {u : Session χ} {f g : Bytes}
    (h : (u.addUrlFragment (f ++ g)).error ≠ .uriTooLong ∨
      (u.addUrlFragment f).error ≠ .uriTooLong ∧
        ((u.addUrlFragment f).addUrlFragment g).error ≠ .uriTooLong) :
    u.addUrlFragment (f ++ g) = (u.addUrlFragment f).addUrlFragment g ∧
      (u.addUrlFragment f).error ≠ .uriTooLong := by
  by_cases hm : u.mode = .request
  · have hfit : u.error ≠ .uriTooLong ∧
        u.request.url.length + (f.length + g.length) ≤ MAX_URI_LENGTH := by
      obtain h | ⟨h₁, h₂⟩ := h
      · rwa [addUrlFragment_fits hm, List.length_append] at h
      · obtain ⟨he, hl⟩ := (addUrlFragment_fits hm).mp h₁
        rw [addUrlFragment_eq hm he hl] at h₂
        have hl' := ((addUrlFragment_fits (by exact hm)).mp h₂).2
        simp only [Request.addUrlFragment, List.length_append] at hl'
        exact ⟨he, by omega⟩
    obtain ⟨he, hl⟩ := hfit
    have hf := addUrlFragment_eq (f := f) hm he (by omega)
    have hfg := addUrlFragment_eq (f := f ++ g) hm he (by rwa [List.length_append])
    refine ⟨?_, (addUrlFragment_fits hm).mpr ⟨he, by omega⟩⟩
    rw [hfg, hf, addUrlFragment_eq (by exact hm) (by exact he) (by
      simp only [Request.addUrlFragment, List.length_append]
      omega)]
    simp only [Request.addUrlFragment, List.append_assoc]
  · simp only [addUrlFragment_response hm] at h ⊢
    exact ⟨trivial, h.elim id And.left⟩

theorem saveLastHeader_ne_uri {u : Session χ} (h : u.error ≠ .uriTooLong) :
    u.saveLastHeader.error ≠ .uriTooLong := by
  have hs : u.storeHeader.error ≠ .uriTooLong := by rwa [error_storeHeader]
  rw [saveLastHeader, checkHeaders]
  split_ifs
  · exact verdict_ne_uri _ hs
  · exact hs

theorem addBodyFragment_error (u : Session χ) (f : Bytes) :
    (u.addBodyFragment E f).error = u.error := by
  rw [addBodyFragment]
  split_ifs
  · exact error_setMsg u _
  · rfl

theorem onData_append (hE : E.Reliable) {k : Mark} {f g : Bytes} {u : Session χ}
    (h : k = .url → (u.addUrlFragment f).error ≠ .uriTooLong ∧
      ((u.addUrlFragment f).addUrlFragment g).error ≠ .uriTooLong) :
    u.onData E k (f ++ g) = (u.onData E k f).onData E k g := by
  cases k with
  | url => exact (addUrlFragment_append (.inr (h rfl))).1
  | headerField =>
    simp only [onData, saveLastHeader_setKey, ← List.append_assoc]
    rfl
  | headerValue => simp only [onData, ← List.append_assoc]
  | body => exact addBodyFragment_append hE u f g

/-- `m_fun` leaves the parser as it is, or as `reset` does. -/
def Callback.Resets (fn : Callback χ) : Prop :=
  ∀ p u ok p' u', fn p u = some (ok, p', u') → p' = p ∨ ∃ t, p' = .init t

/-- Where storage is reliable and no URL is cut short, the callbacks do not tell one fragment from
two. -/
theorem lawful (hE : E.Reliable) {fn : Callback χ} (hfn : fn.Resets) :
    (settings E fn).Lawful fun u => u.error ≠ .uriTooLong where
  data_ok _ _ _ := rfl
  data_append k f g u _ h := by
    refine onData_append hE fun hk => ?_
    subst hk
    obtain hk | h := h
    · exact absurd hk (by decide)
    refine ⟨fun hu => h ?_, h⟩
    change ((u.addUrlFragment f).addUrlFragment g).error = _
    rw [addUrlFragment, if_neg fun hc => hc.2 hu, hu]
  data_whole k f g u _ h := by
    have ha (hk : k ≠ .url) : u.onData E k (f ++ g) = (u.onData E k f).onData E k g :=
      onData_append hE fun h => absurd h hk
    cases k with
    | url =>
      obtain ⟨heq, hf⟩ := addUrlFragment_append (.inl h)
      exact ⟨hf, heq⟩
    | headerField => exact ⟨h, ha (by decide)⟩
    | headerValue => exact ⟨h, ha (by decide)⟩
    | body =>
      refine ⟨?_, ha (by decide)⟩
      change (u.addBodyFragment E f).error ≠ _
      change (u.addBodyFragment E (f ++ g)).error ≠ _ at h
      rwa [addBodyFragment_error] at h ⊢
  data_good k f u hk h := by
    cases k with
    | url => exact absurd rfl hk
    | headerField => exact saveLastHeader_ne_uri h
    | headerValue => exact h
    | body =>
      change (u.addBodyFragment E f).error ≠ _
      rwa [addBodyFragment_error]
  headers_ok _ _ := rfl
  headers_eq _ _ _ := rfl
  headers_good _ _ h := saveLastHeader_ne_uri h
  complete h := by
    obtain ⟨⟨ok, p', u'⟩, hf, he⟩ := Option.map_eq_some_iff.mp h
    obtain ⟨rfl, rfl, -⟩ := Prod.mk.injEq .. ▸ Prod.mk.injEq .. ▸ he
    exact ⟨rfl, hfn _ _ _ _ _ hf⟩

end Session

end Stutter
