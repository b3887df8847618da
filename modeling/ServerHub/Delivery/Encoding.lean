import ServerHub.Go.Utf8
import ServerHub.Delivery.Pipeline

namespace Delivery

open Go

-- the bytes truncate returns, valid or not
def truncateBytes (s : String) (max : Nat) : ByteArray :=
  if max = 0 ∨ utf8Length s ≤ max then s.toByteArray else cutBytes s max "…(truncated)"

structure Cut where
  text : String
  limit : Nat
deriving DecidableEq

namespace Cut

def bytes (c : Cut) : ByteArray := truncateBytes c.text c.limit

def Clean (c : Cut) : Prop := utf8Length c.text ≤ c.limit ∨ Whole c.text c.limit

def NulFree (c : Cut) : Prop := ∀ t ∈ truncate c.text c.limit, '\x00' ∉ t.toList

end Cut

-- what the pipeline writes to text columns that it cut to a length
inductive Writing where
  | enqueue (n : Notice) (ts : Int) (ch : Channel)
  | digest (n : Notice) (ts : Int) (ch : Channel)
  | summary (b : DigestBatch) (ts : Int)
  | failure (e : String)
  | overflow (r : OutboxRow) (ts : Int)

namespace Writing

def cuts : Writing → List Cut
  | .enqueue n _ _ => [⟨n.title,300⟩,⟨n.input.body,4000⟩]
  | .digest n _ _ =>
      [⟨n.title,200⟩,⟨if n.input.resource = "" then n.input.key else n.input.resource,200⟩]
  | .summary b _ =>
      [⟨b.title,0⟩,⟨toString b.count ++ " notification(s) grouped by " ++ b.digestKey ++ ":\n" ++
        b.titles ++ if b.resources = "" then "" else "\nResources: " ++ b.resources,4000⟩]
  | .failure e => [⟨e,500⟩]
  | .overflow r _ => [⟨r.title,150⟩]

def texts : Writing → List ByteArray
  | .overflow r _ => ["throttled: ".toByteArray ++ truncateBytes r.title 150,r.dedupeKey.toByteArray]
  | w => w.cuts.map Cut.bytes

def accepted : Writing → Bool
  | .enqueue n ts ch => (n.draft ts ch).isSome
  | .digest n ts ch => (n.entry ts ch).isSome
  | .summary b ts => (b.summary ts).isSome
  | .failure e => (column (truncate e 500)).isSome
  | .overflow r ts => (r.overflow ts).isSome

end Writing

theorem long_of_not {s : String} {max : Nat} (h : ¬(max = 0 ∨ utf8Length s ≤ max)) :
    max ≤ utf8Length s := by
  have hlt := Nat.lt_of_not_le (not_or.mp h).2
  exact Nat.le_of_lt hlt

theorem valid_truncateBytes {s : String} {max : Nat} :
    (truncateBytes s max).IsValidUTF8 ↔ utf8Length s ≤ max ∨ Whole s max := by
  unfold truncateBytes
  split
  · refine iff_of_true s.isValidUTF8 ?_
    rename_i h
    exact h.symm.imp_right fun hzero => ⟨"",s,by simp,hzero.symm⟩
  · rename_i h
    rw [valid_cutBytes (long_of_not h)]
    exact (or_iff_right (not_or.mp h).2).symm

theorem truncate_eq (s : String) (max : Nat) : truncate s max =
    if h : (truncateBytes s max).IsValidUTF8 then some ⟨truncateBytes s max,h⟩ else none := by
  by_cases hfits : max = 0 ∨ utf8Length s ≤ max
  · have hbytes : truncateBytes s max = s.toByteArray := if_pos hfits
    simp only [truncate,if_pos hfits,hbytes,s.isValidUTF8,dite_true]
  · have hmax := long_of_not hfits
    have hbytes : truncateBytes s max = cutBytes s max "…(truncated)" := if_neg hfits
    rw [truncate,if_neg hfits]
    cases hcut : cut max s.toList with
    | none =>
      have hwhole : ¬Whole s max := by
        rw [← cut_isSome hmax,hcut]
        simp
      rw [dif_neg]
      · rfl
      · rwa [hbytes,valid_cutBytes hmax]
    | some ds =>
      have heq := cutBytes_of_cut "…(truncated)" hcut hmax
      have hvalid : (truncateBytes s max).IsValidUTF8 := by
        rw [hbytes,heq]
        exact String.isValidUTF8 _
      rw [dif_pos hvalid,Option.map_some,Option.some.injEq]
      exact String.toByteArray_inj.mp (hbytes.trans heq).symm

theorem truncate_isSome {s : String} {max : Nat} :
    (truncate s max).isSome ↔ utf8Length s ≤ max ∨ Whole s max := by
  rw [← valid_truncateBytes,truncate_eq]
  split <;> simp [*]

theorem column_isSome {s : Option String} :
    (column s).isSome ↔ s.isSome ∧ ∀ t ∈ s, '\x00' ∉ t.toList := by
  cases s with
  | none => simp [column]
  | some t => simp [column,Option.filter]

theorem column_cut {c : Cut} : (column (truncate c.text c.limit)).isSome ↔ c.Clean ∧ c.NulFree := by
  rw [column_isSome,truncate_isSome]
  rfl

theorem valid_prefixed {a : String} {b : ByteArray} :
    (a.toByteArray ++ b).IsValidUTF8 ↔ b.IsValidUTF8 := by
  rw [← String.utf8Encode_toList]
  induction a.toList with
  | nil => simp
  | cons c cs ih =>
    rw [← List.singleton_append,List.utf8Encode_append,ByteArray.append_assoc,
      ByteArray.isValidUTF8_utf8Encode_singleton_append_iff,ih]

theorem valid_texts_iff (w : Writing) : (∀ t ∈ w.texts, t.IsValidUTF8) ↔ ∀ c ∈ w.cuts, c.Clean := by
  cases w with
  | overflow r ts =>
    simp only [Writing.texts,Writing.cuts,List.forall_mem_cons,valid_prefixed,valid_truncateBytes,
      Cut.Clean]
    simp [String.isValidUTF8]
  | _ => simp [Writing.texts,Writing.cuts,Cut.bytes,valid_truncateBytes,Cut.Clean]

theorem isSome_bind {α β : Type} {x : Option α} {f : α → β} :
    (x >>= fun a => some (f a)).isSome = x.isSome := by cases x <;> rfl

theorem isSome_bind₂ {α β γ : Type} {x : Option α} {y : Option β} {f : α → β → γ} :
    (x >>= fun a => y >>= fun b => some (f a b)).isSome ↔ x.isSome ∧ y.isSome := by
  cases x <;> cases y <;> simp

theorem column_prefixed {a : String} {t : Option String} (ha : '\x00' ∉ a.toList) :
    (t >>= fun t => column (some (a ++ t))).isSome ↔ (column t).isSome := by
  cases t with
  | none => rfl
  | some t =>
    show (column (some (a ++ t))).isSome ↔ _
    simp [column_isSome,ha]

theorem accepted_iff (w : Writing) :
    w.accepted = true ↔ (∀ c ∈ w.cuts, c.Clean) ∧ ∀ c ∈ w.cuts, c.NulFree := by
  have hpair : ∀ c d : Cut, (column (truncate c.text c.limit)).isSome ∧
      (column (truncate d.text d.limit)).isSome ↔
        (∀ x ∈ [c,d], x.Clean) ∧ ∀ x ∈ [c,d], x.NulFree := by
    intro c d
    rw [column_cut,column_cut]
    simp only [List.forall_mem_cons,List.not_mem_nil,false_implies,implies_true,and_true]
    exact and_and_and_comm
  cases w with
  | enqueue n ts ch => exact isSome_bind₂.trans (hpair ⟨n.title,300⟩ ⟨n.input.body,4000⟩)
  | digest n ts ch => exact isSome_bind₂.trans (hpair ⟨n.title,200⟩ ⟨_,200⟩)
  | summary b ts =>
    exact isSome_bind₂.trans (hpair ⟨b.title,0⟩ ⟨_,4000⟩)
  | failure e =>
    exact column_cut (c := ⟨e,500⟩).trans (by simp [Writing.cuts])
  | overflow r ts =>
    have hnul : '\x00' ∉ "throttled: ".toList := by decide
    have hoverflow : r.overflow ts = (truncate r.title 150 >>= fun t =>
        column (some ("throttled: " ++ t))) >>= fun title => some
          { digestKey := "overflow::" ++ r.channel.text
            windowEnd := truncateTo ts (15 * minute) + 15 * minute
            channel := r.channel, groupID := r.groupID, severity := .warning
            title := title, resource := r.dedupeKey, ts := ts } := by
      rw [bind_assoc]
      rfl
    show (r.overflow ts).isSome = true ↔ _
    rw [hoverflow,isSome_bind,column_prefixed hnul]
    exact column_cut (c := ⟨r.title,150⟩).trans (by simp [Writing.cuts])

theorem stored_texts_valid_iff (w : Writing) :
    ((∀ t ∈ w.texts, t.IsValidUTF8) ↔ ∀ c ∈ w.cuts, c.Clean) ∧
      (w.accepted = true ↔ (∀ t ∈ w.texts, t.IsValidUTF8) ∧ ∀ c ∈ w.cuts, c.NulFree) := by
  refine ⟨valid_texts_iff w,?_⟩
  rw [accepted_iff,valid_texts_iff]

def accented (n : Nat) : String := String.ofList (List.replicate n 'a' ++ ['é'])

theorem utf8Length_accented (n : Nat) : utf8Length (accented n) = n + 2 := by
  rw [utf8Length,accented,String.toList_ofList]
  induction n with
  | zero => rfl
  | succ n ih =>
    rw [List.replicate_succ,List.cons_append,List.map_cons,List.sum_cons,ih]
    show 1 + (n + 2) = _
    omega

theorem cut_accented (n : Nat) : cut (n + 1) (accented n).toList = none := by
  rw [accented,String.toList_ofList]
  induction n with
  | zero => decide
  | succ n ih =>
    rw [List.replicate_succ,List.cons_append]
    show (if 1 ≤ n + 1 + 1 then (cut (n + 1) _).map _ else none) = none
    rw [ih]
    rfl

theorem accented_split (n : Nat) : ¬(Cut.mk (accented n) (n + 1)).Clean := by
  have hlength := utf8Length_accented n
  rintro (h | h)
  · have hle : utf8Length (accented n) ≤ n + 1 := h
    omega
  · have hwhole : Whole (accented n) (n + 1) := h
    rw [← cut_isSome (by omega),cut_accented] at hwhole
    cases hwhole

theorem enqueue_refused {n : Notice} {ts : Int} {ch : Channel} {chs : List Channel} {s : Store}
    (h : n.draft ts ch = none) : enqueue n ts (ch :: chs) s = .error invalidText := by
  simp only [enqueue,h]

section Accented

variable {n : Notice} (h : n.title = accented 299) (ts : Int) (ch : Channel)

include h

theorem accented_invalid : ¬∀ t ∈ (Writing.enqueue n ts ch).texts, t.IsValidUTF8 := by
  rw [valid_texts_iff]
  intro hclean
  have htitle : (Cut.mk n.title 300).Clean := hclean _ List.mem_cons_self
  rw [h] at htitle
  exact accented_split 299 htitle

theorem accented_draft : n.draft ts ch = none := by
  by_contra hdraft
  have haccepted : (Writing.enqueue n ts ch).accepted = true := Option.isSome_iff_ne_none.mpr hdraft
  exact accented_invalid h ts ch ((valid_texts_iff _).mpr ((accepted_iff _).mp haccepted).1)

end Accented

def Input.accented : Input := { Input.alert "k" ["EMAIL"] false with title := Delivery.accented 299 }

theorem notice_title {i : Input} (h : i.title ≠ "") : i.notice.title = i.title := if_neg h

theorem accented_ne (n : Nat) : Delivery.accented n ≠ "" := by
  intro h
  have hlength := utf8Length_accented n
  rw [h] at hlength
  exact absurd hlength.symm (Nat.succ_ne_zero _)

theorem accented_title : Input.accented.notice.title = Delivery.accented 299 :=
  notice_title (i := Input.accented) (accented_ne 299)

theorem accented_title_refused :
    (¬∀ t ∈ (Writing.enqueue Input.accented.notice 0 .email).texts, t.IsValidUTF8) ∧
      Input.accented.notice.channels = [.email] ∧
      enqueue Input.accented.notice 0 [.email] .empty = .error invalidText := by
  exact ⟨accented_invalid accented_title 0 .email,rfl,
    enqueue_refused (accented_draft accented_title 0 .email)⟩

end Delivery
