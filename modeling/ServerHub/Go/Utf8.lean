import ServerHub.Go.Strings

namespace Go

def Whole (s : String) (max : Nat) : Prop :=
  ∃ pre post : String, s = pre ++ post ∧ utf8Length pre = max

section Sizes

theorem utf8Length_eq (s : String) : utf8Length s = s.utf8ByteSize := by
  have hlist : ∀ cs : List Char, (cs.map Char.utf8Size).sum = (String.ofList cs).utf8ByteSize := by
    intro cs
    induction cs with
    | nil => rfl
    | cons c cs ih =>
      rw [List.map_cons,List.sum_cons,ih,String.ofList_cons,String.utf8ByteSize_append,
        String.utf8ByteSize_singleton]
  rw [utf8Length,hlist,String.ofList_toList]

theorem whole_iff {s : String} {max : Nat} :
    Whole s max ↔ (String.Pos.Raw.mk max).IsValid s := by
  rw [String.Pos.Raw.isValid_iff_exists_append]
  refine exists_congr fun pre => exists_congr fun post => and_congr_right fun _ => ?_
  rw [utf8Length_eq,String.Pos.Raw.ext_iff,String.byteIdx_rawEndPos,eq_comm]

theorem cut_some {cs ds : List Char} {max : Nat} (h : cut max cs = some ds)
    (hmax : max ≤ (cs.map Char.utf8Size).sum) :
    ∃ es, cs = ds ++ es ∧ (ds.map Char.utf8Size).sum = max := by
  induction cs generalizing max ds with
  | nil =>
    obtain rfl := Nat.le_zero.mp hmax
    obtain rfl := Option.some.inj h
    exact ⟨[],rfl,rfl⟩
  | cons c cs ih =>
    cases max with
    | zero =>
      obtain rfl := Option.some.inj h
      exact ⟨c :: cs,rfl,rfl⟩
    | succ max =>
      obtain ⟨hfits,hrest⟩ := Option.ite_none_right_eq_some.mp h
      obtain ⟨ds,hds,rfl⟩ := Option.map_eq_some_iff.mp hrest
      rw [List.map_cons,List.sum_cons] at hmax
      obtain ⟨es,rfl,hsum⟩ := ih hds (by omega)
      refine ⟨es,rfl,?_⟩
      rw [List.map_cons,List.sum_cons,hsum]
      omega

theorem cut_append {ds : List Char} (es : List Char) :
    cut (ds.map Char.utf8Size).sum (ds ++ es) = some ds := by
  induction ds with
  | nil => cases es <;> rfl
  | cons d ds ih =>
    have hpos : 0 < d.utf8Size := Char.utf8Size_pos d
    obtain ⟨n,hn⟩ := Nat.exists_eq_succ_of_ne_zero (Nat.ne_of_gt
      (Nat.lt_add_right (ds.map Char.utf8Size).sum hpos))
    rw [List.map_cons,List.sum_cons,List.cons_append,hn]
    simp only [cut]
    rw [if_pos (by omega),show n + 1 - d.utf8Size = (ds.map Char.utf8Size).sum by omega,ih]
    rfl

theorem cut_isSome {s : String} {max : Nat} (hmax : max ≤ utf8Length s) :
    (cut max s.toList).isSome ↔ Whole s max := by
  constructor
  · intro h
    obtain ⟨ds,hds⟩ := Option.isSome_iff_exists.mp h
    obtain ⟨es,hs,hsum⟩ := cut_some hds hmax
    refine ⟨.ofList ds,.ofList es,?_,?_⟩
    · rw [← String.ofList_append,← hs,String.ofList_toList]
    · rw [utf8Length,String.toList_ofList,hsum]
  · rintro ⟨pre,post,rfl,rfl⟩
    rw [String.toList_append,utf8Length,cut_append]
    rfl

end Sizes

section Bytes

def cutBytes (s : String) (max : Nat) (suffix : String) : ByteArray :=
  s.toByteArray.extract 0 max ++ suffix.toByteArray

theorem cutBytes_of_cut {s : String} (suffix : String) {max : Nat} {ds : List Char}
    (h : cut max s.toList = some ds) (hmax : max ≤ utf8Length s) :
    cutBytes s max suffix = (String.ofList ds ++ suffix).toByteArray := by
  obtain ⟨es,hs,hsum⟩ := cut_some h hmax
  have hsplit : s = String.ofList ds ++ String.ofList es := by
    rw [← String.ofList_append,← hs,String.ofList_toList]
  have hsize : max = (String.ofList ds).toByteArray.size := by
    rw [String.size_toByteArray,← utf8Length_eq,utf8Length,String.toList_ofList,hsum]
  rw [cutBytes,String.toByteArray_append]
  congr 1
  rw [hsplit,String.toByteArray_append,ByteArray.extract_append_eq_left hsize]

theorem valid_cutBytes {s suffix : String} {max : Nat} (hmax : max ≤ utf8Length s) :
    (cutBytes s max suffix).IsValidUTF8 ↔ Whole s max := by
  have hle : (String.Pos.Raw.mk max) ≤ s.rawEndPos := by
    rw [String.Pos.Raw.le_iff,String.byteIdx_rawEndPos,← utf8Length_eq]
    exact hmax
  have hsize : max = (s.toByteArray.extract 0 max).size := by
    rw [ByteArray.size_extract,String.size_toByteArray,← utf8Length_eq]
    omega
  rw [whole_iff,String.Pos.Raw.isValid_iff_isValidUTF8_extract_zero]
  constructor
  · intro h
    -- the suffix is whole characters, so the bytes before it are
    let u : String := ⟨cutBytes s max suffix,h⟩
    have hu : u.utf8ByteSize = max + suffix.toByteArray.size := by
      show (cutBytes s max suffix).size = _
      rw [cutBytes,ByteArray.size_append,← hsize]
    have hstart : (String.Pos.Raw.mk max).IsValid u := by
      refine String.Pos.Raw.isValid_iff_isValidUTF8_extract_utf8ByteSize.mpr ⟨?_,?_⟩
      · rw [String.Pos.Raw.le_iff,String.byteIdx_rawEndPos,hu]
        exact Nat.le_add_right _ _
      · show ((cutBytes s max suffix).extract max u.utf8ByteSize).IsValidUTF8
        rw [hu,cutBytes,ByteArray.extract_append_eq_right hsize (by rw [← hsize])]
        exact suffix.isValidUTF8
    refine ⟨hle,?_⟩
    have hvalid := (String.Pos.Raw.isValid_iff_isValidUTF8_extract_zero.mp hstart).2
    rwa [show u.toByteArray = cutBytes s max suffix from rfl,cutBytes,
      ByteArray.extract_append_eq_left hsize] at hvalid
  · exact fun h => h.2.append suffix.isValidUTF8

end Bytes

end Go
