import ServerHub.Go.Strings

namespace Containers

abbrev Bytes := List UInt8

section Strip

def frameSize (a b c d : UInt8) : Nat :=
  a.toNat <<< 24 ||| b.toNat <<< 16 ||| c.toNat <<< 8 ||| d.toNat

def header : Bytes → Option (Nat × Bytes)
  | t :: x :: y :: z :: a :: b :: c :: d :: rest =>
      if (t = 1 ∨ t = 2) ∧ x = 0 ∧ y = 0 ∧ z = 0 then some (frameSize a b c d,rest) else none
  | _ => none

theorem header_length {b rest : Bytes} {size : Nat} (h : header b = some (size,rest)) :
    rest.length + 8 = b.length := by
  unfold header at h
  split at h
  · split at h
    · obtain ⟨-,rfl⟩ := Prod.mk.inj (Option.some.inj h)
      rfl
    · cases h
  · cases h

def stripDockerHeader (b : Bytes) : Bytes :=
  match _h : header b with
  | none => b
  | some (size,rest) =>
      if size = 0 ∨ rest.length < size then rest
      else rest.take size ++ stripDockerHeader (rest.drop size)
termination_by b.length
decreasing_by
  have hlength := header_length ‹header b = some (size,rest)›
  rw [List.length_drop]
  omega

end Strip

structure Frame where
  stream : UInt8
  payload : Bytes
  streamed : stream = 1 ∨ stream = 2
  nonempty : payload ≠ []
  sized : payload.length < 4294967296

def sizeBytes (n : Nat) : Bytes :=
  [UInt8.ofNat (n / 16777216),UInt8.ofNat (n / 65536),UInt8.ofNat (n / 256),UInt8.ofNat n]

def Frame.encode (f : Frame) : Bytes :=
  f.stream :: 0 :: 0 :: 0 :: (sizeBytes f.payload.length ++ f.payload)

def Cut (t : Bytes) : Prop := ∀ size rest, header t = some (size,rest) → size = 0 ∨ rest.length < size

def bare (t : Bytes) : Bytes := ((header t).map Prod.snd).getD t

theorem frameSize_eq (a b c d : UInt8) :
    frameSize a b c d = a.toNat * 16777216 + b.toNat * 65536 + c.toNat * 256 + d.toNat := by
  have hb := b.toNat_lt
  have hc := c.toNat_lt
  have hd := d.toNat_lt
  have hab : a.toNat <<< 24 ||| b.toNat <<< 16 = (a.toNat * 256 + b.toNat) <<< 16 := by
    rw [show a.toNat <<< 24 = (a.toNat <<< 8) <<< 16 by rw [← Nat.shiftLeft_add],← Nat.shiftLeft_or_distrib,
      ← Nat.shiftLeft_add_eq_or_of_lt (by omega),Nat.shiftLeft_eq a.toNat]
  have habc : (a.toNat * 256 + b.toNat) <<< 16 ||| c.toNat <<< 8 =
      ((a.toNat * 256 + b.toNat) * 256 + c.toNat) <<< 8 := by
    rw [show (a.toNat * 256 + b.toNat) <<< 16 = ((a.toNat * 256 + b.toNat) <<< 8) <<< 8 by
        rw [← Nat.shiftLeft_add],← Nat.shiftLeft_or_distrib,
      ← Nat.shiftLeft_add_eq_or_of_lt (by omega),Nat.shiftLeft_eq (a.toNat * 256 + b.toNat)]
  rw [frameSize,hab,habc,← Nat.shiftLeft_add_eq_or_of_lt (by omega),Nat.shiftLeft_eq]
  omega

theorem frameSize_lt (a b c d : UInt8) : frameSize a b c d < 4294967296 := by
  have ha := a.toNat_lt
  have hb := b.toNat_lt
  have hc := c.toNat_lt
  have hd := d.toNat_lt
  rw [frameSize_eq]
  omega

theorem frameSize_sizeBytes {n : Nat} (h : n < 4294967296) :
    frameSize (UInt8.ofNat (n / 16777216)) (UInt8.ofNat (n / 65536)) (UInt8.ofNat (n / 256))
      (UInt8.ofNat n) = n := by
  rw [frameSize_eq]
  simp only [UInt8.toNat_ofNat']
  omega

theorem sizeBytes_frameSize (a b c d : UInt8) : sizeBytes (frameSize a b c d) = [a,b,c,d] := by
  have hb := b.toNat_lt
  have hc := c.toNat_lt
  have hd := d.toNat_lt
  have ha := a.toNat_lt
  rw [frameSize_eq,sizeBytes]
  simp only [List.cons.injEq,and_true,← UInt8.toNat_inj,UInt8.toNat_ofNat']
  omega

theorem header_encode (f : Frame) (t : Bytes) :
    header (f.encode ++ t) = some (f.payload.length,f.payload ++ t) := by
  have hsize := frameSize_sizeBytes f.sized
  simp [Frame.encode,sizeBytes,header,f.streamed,hsize]

theorem strip_cut {t : Bytes} (h : Cut t) : stripDockerHeader t = bare t := by
  rw [stripDockerHeader]
  split
  · rename_i hnone
    rw [bare,hnone]
    rfl
  · rename_i size rest hsome
    rw [if_pos (h size rest hsome),bare,hsome]
    rfl

theorem strip_encode (f : Frame) (t : Bytes) :
    stripDockerHeader (f.encode ++ t) = f.payload ++ stripDockerHeader t := by
  have hwhole : ¬ (f.payload.length = 0 ∨ (f.payload ++ t).length < f.payload.length) := by
    have hne := f.nonempty
    rw [← List.length_pos_iff] at hne
    rw [List.length_append]
    omega
  rw [stripDockerHeader]
  split
  · rename_i hnone
    rw [header_encode] at hnone
    cases hnone
  · rename_i size rest hsome
    rw [header_encode] at hsome
    obtain ⟨rfl,rfl⟩ := Prod.mk.inj (Option.some.inj hsome)
    rw [if_neg hwhole,List.take_left,List.drop_left]

theorem strip_frames (fs : List Frame) (t : Bytes) : stripDockerHeader (fs.flatMap Frame.encode ++ t) =
    fs.flatMap Frame.payload ++ stripDockerHeader t := by
  induction fs with
  | nil => rfl
  | cons f fs ih =>
    rw [List.flatMap_cons,List.flatMap_cons,List.append_assoc,strip_encode,ih,List.append_assoc]

theorem header_some {b rest : Bytes} {size : Nat} (h : header b = some (size,rest)) :
    ∃ stream, (stream = 1 ∨ stream = 2) ∧ size < 4294967296 ∧
      b = stream :: 0 :: 0 :: 0 :: (sizeBytes size ++ rest) := by
  unfold header at h
  split at h
  · rename_i t x y z a b c d tail
    split at h
    · rename_i hc
      obtain ⟨rfl,rfl⟩ := Prod.mk.inj (Option.some.inj h)
      obtain ⟨hstream,rfl,rfl,rfl⟩ := hc
      refine ⟨t,hstream,frameSize_lt a b c d,?_⟩
      rw [sizeBytes_frameSize]
      rfl
    · cases h
  · cases h

theorem frames_cut (b : Bytes) : ∃ (fs : List Frame) (t : Bytes), Cut t ∧ b = fs.flatMap Frame.encode ++ t := by
  by_cases hcut : Cut b
  · exact ⟨[],b,hcut,rfl⟩
  obtain ⟨size,hcut⟩ := not_forall.mp hcut
  obtain ⟨rest,hcut⟩ := not_forall.mp hcut
  obtain ⟨hheader,hwhole⟩ := Classical.not_imp.mp hcut
  obtain ⟨hpos,hlong⟩ := not_or.mp hwhole
  obtain ⟨stream,hstream,hsize,hb⟩ := header_some hheader
  have hshort : (rest.drop size).length < b.length := by
    have hlength := header_length hheader
    rw [List.length_drop]
    omega
  obtain ⟨fs,t,ht,hrest⟩ := frames_cut (rest.drop size)
  have hlength : (rest.take size).length = size := List.length_take_of_le (Nat.not_lt.mp hlong)
  let f : Frame := ⟨stream,rest.take size,hstream,fun he => hpos (by rw [← hlength,he]; rfl),
    by rw [hlength]; exact hsize⟩
  refine ⟨f :: fs,t,ht,?_⟩
  have hencode : f.encode = stream :: 0 :: 0 :: 0 :: (sizeBytes size ++ rest.take size) := by
    show _ :: _ :: _ :: _ :: (sizeBytes (rest.take size).length ++ _) = _
    rw [hlength]
  rw [List.flatMap_cons,List.append_assoc,← hrest,hencode,hb]
  simp
termination_by b.length

theorem strip_exact :
    (∀ (fs : List Frame) t, Cut t → stripDockerHeader (fs.flatMap Frame.encode ++ t) =
      fs.flatMap Frame.payload ++ bare t) ∧
    (∀ b, ∃ (fs : List Frame) (t : Bytes), Cut t ∧ b = fs.flatMap Frame.encode ++ t) ∧
    ∀ (fs : List Frame) b, stripDockerHeader (fs.flatMap Frame.encode ++ b) =
      stripDockerHeader (fs.flatMap Frame.encode) ++ stripDockerHeader b := by
  refine ⟨fun fs t ht => by rw [strip_frames,strip_cut ht],frames_cut,fun fs b => ?_⟩
  have hempty : stripDockerHeader [] = [] := strip_cut fun _ _ h => by cases h
  have hwhole := strip_frames fs []
  rw [List.append_nil,hempty,List.append_nil] at hwhole
  rw [strip_frames,hwhole]

end Containers
