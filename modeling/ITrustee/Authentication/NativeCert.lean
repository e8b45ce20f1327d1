import Mathlib.Tactic
import ITrustee.Authentication.Passwd
import ITrustee.Authentication.PkgName
import ITrustee.Foundation.Bytes
import ITrustee.Foundation.Securec

/-!
# The certificate of a native client

`TeeGetNativeCert` of `tee_get_native_cert.c`: the package name and the user name of a process, each
behind its length, written into a buffer. Two writers move pointers of their own, and the caller computes
where the second of them starts; the room that is left and the length of the result are shared.
-/

namespace ITrustee.Authentication

open NulStrings

def maxNameLength : Nat := 256

/-- What a writer is given: the buffer from its pointer on, `*len` and `*inputLen`. -/
structure CertBuf where
  buffer : List UInt8
  len : UInt32
  inputLen : UInt32

section Model

variable (mem : Securec.Memory) (lib : Securec)

/-- A string behind its length. -/
def setStringToBuf (buf : CertBuf) (s : List UInt8) : Int × CertBuf :=
  let num := UInt32.ofNat s.length
  if buf.inputLen < 4 then (-1, buf)
  else
    let head := lib.memcpyS buf.buffer buf.inputLen.toNat (Bytes.le 4 num.toNat) 4
    if head.1 ≠ 0 then (head.1, { buf with buffer := head.2 })
    else
      let len := buf.len + 4
      let inputLen := buf.inputLen - 4
      if inputLen < num then (-1, ⟨head.2, len, inputLen⟩)
      else
        let body := lib.memcpyS (head.2.drop 4) inputLen.toNat s num.toNat
        if body.1 ≠ 0 then (body.1, ⟨head.2.take 4 ++ body.2, len, inputLen⟩)
        else (0, ⟨head.2.take 4 ++ body.2, len + num, inputLen - num⟩)

def setPathToBuf (buf : CertBuf) (path : List UInt8) : Int × CertBuf := setStringToBuf lib buf path

def setUserNameToBuf (buf : CertBuf) (userName : List UInt8) : Int × CertBuf :=
  setStringToBuf lib buf userName

variable (cmdline : Option CmdLine) (passwd : Option (List UInt8)) (caUid : UInt32) (fuel : Nat)

def setUserInfoToBuf (buf : CertBuf) : Option (Int × CertBuf) :=
  (teeGetUserName passwd caUid (List.replicate maxNameLength 0) maxNameLength fuel).bind fun user =>
    if user.1 ≠ 0 then some (user.1, buf)
    else (read user.2).map fun userName => setUserNameToBuf lib buf userName.1

/-- `TeeGetNativeCert`, with `*len` and the buffer unless one of the pointers is null. -/
def teeGetNativeCert (out : Option (UInt32 × List UInt8)) :
    Option (Int × Option (UInt32 × List UInt8)) :=
  match out with
  | none => some (-1, none)
  | some (inputLen, buffer) =>
      (teeGetPkgName mem cmdline (List.replicate maxPathLength 0) maxPathLength).bind fun pkg =>
        if pkg.1 ≠ 0 then some (pkg.1, out)
        else
          (read pkg.2).bind fun path =>
            let set := setPathToBuf lib ⟨buffer, 0, inputLen⟩ path.1
            if set.1 ≠ 0 then some (set.1, some (set.2.len, set.2.buffer))
            else
              let next := 4 + path.1.length
              (setUserInfoToBuf lib passwd caUid fuel
                { set.2 with buffer := set.2.buffer.drop next }).map fun info =>
                  (info.1, some (info.2.len, set.2.buffer.take next ++ info.2.buffer))

end Model

/-! ### The format -/

/-- A string behind its length. -/
def framed (s : List UInt8) : List UInt8 := Bytes.le 4 s.length ++ s

def encodeCert (pkgName userName : List UInt8) : List UInt8 := framed pkgName ++ framed userName

def decodeCert (cert : List UInt8) : List UInt8 × List UInt8 :=
  let pkgLen := Bytes.load 4 cert 0
  let rest := cert.drop (4 + pkgLen)
  (Bytes.slice cert 4 pkgLen, Bytes.slice rest 4 (Bytes.load 4 rest 0))

theorem framed_length (s : List UInt8) : (framed s).length = 4 + s.length := by
  rw [framed, List.length_append, Bytes.le_length]

theorem load_framed {s : List UInt8} (h : s.length < 2 ^ 32) (rest : List UInt8) :
    Bytes.load 4 (framed s ++ rest) 0 = s.length := by
  rw [framed, List.append_assoc, Bytes.load_le_append]
  exact Nat.mod_eq_of_lt h

theorem slice_framed (s rest : List UInt8) : Bytes.slice (framed s ++ rest) 4 s.length = s := by
  rw [framed, List.append_assoc, Bytes.slice, List.drop_left' (Bytes.le_length 4 _), List.take_left]

theorem drop_framed (s rest : List UInt8) : (framed s ++ rest).drop (4 + s.length) = rest :=
  List.drop_left' (framed_length s)

theorem decodeCert_encodeCert {pkgName userName : List UInt8} (hpkg : pkgName.length < 2 ^ 32)
    (huser : userName.length < 2 ^ 32) :
    decodeCert (encodeCert pkgName userName) = (pkgName, userName) := by
  have hload := load_framed huser []
  have hslice := slice_framed userName []
  rw [List.append_nil] at hload hslice
  rw [decodeCert, encodeCert, load_framed hpkg, slice_framed, drop_framed, hload, hslice]

theorem encodeCert_length (pkgName userName : List UInt8) :
    (encodeCert pkgName userName).length = 8 + pkgName.length + userName.length := by
  rw [encodeCert, List.length_append, framed_length, framed_length]
  omega

/-- Two pairs of names have two certificates. -/
theorem encodeCert_injective {pkgName userName pkgName' userName' : List UInt8}
    (hpkg : pkgName.length < 2 ^ 32) (huser : userName.length < 2 ^ 32)
    (hpkg' : pkgName'.length < 2 ^ 32) (huser' : userName'.length < 2 ^ 32)
    (h : encodeCert pkgName' userName' = encodeCert pkgName userName) :
    pkgName' = pkgName ∧ userName' = userName := by
  have hdecode := congrArg decodeCert h
  rw [decodeCert_encodeCert hpkg' huser', decodeCert_encodeCert hpkg huser] at hdecode
  exact Prod.mk.inj hdecode

/-! ### The writers -/

variable {mem : Securec.Memory} {lib : Securec}

theorem ofNat_toNat {n : Nat} (h : n < 2 ^ 32) : (UInt32.ofNat n).toNat = n :=
  UInt32.toNat_ofNat_of_lt' h

/-- A writer that succeeds puts the framed string at the start of the buffer and accounts for it; none
writes behind the room that was left. -/
theorem setStringToBuf_spec (hlib : lib.CopiesWithinMax) (hwrites : lib.WritesWithinMax)
    {buf : CertBuf} {s : List UInt8} (hs : s.length < 2 ^ 32)
    (hbuf : buf.inputLen.toNat ≤ buf.buffer.length) :
    ((setStringToBuf lib buf s).2.buffer.drop buf.inputLen.toNat =
      buf.buffer.drop buf.inputLen.toNat) ∧
    ((setStringToBuf lib buf s).1 = 0 → 4 + s.length ≤ buf.inputLen.toNat ∧
      setStringToBuf lib buf s = (0, ⟨framed s ++ buf.buffer.drop (4 + s.length),
        buf.len + 4 + UInt32.ofNat s.length, buf.inputLen - 4 - UInt32.ofNat s.length⟩)) := by
  have hnum := ofNat_toNat hs
  have hfour : (4 : UInt32).toNat = 4 := rfl
  rw [setStringToBuf, hnum]
  by_cases hshort : buf.inputLen < 4
  · rw [if_pos hshort]
    exact ⟨rfl, fun h => absurd h (by decide : (-1 : Int) ≠ 0)⟩
  · have hroom : 4 ≤ buf.inputLen.toNat := UInt32.le_iff_toNat_le.mp (UInt32.not_lt.mp hshort)
    have hle : (Bytes.le 4 s.length).length = 4 := Bytes.le_length 4 _
    have hleft : (buf.inputLen - 4).toNat = buf.inputLen.toNat - 4 :=
      UInt32.toNat_sub_of_le _ _ (UInt32.not_lt.mp hshort)
    have hframe (tail : List UInt8)
        (htail : tail.drop (buf.inputLen.toNat - 4) = buf.buffer.drop buf.inputLen.toNat) :
        (Bytes.le 4 s.length ++ tail).drop buf.inputLen.toNat =
          buf.buffer.drop buf.inputLen.toNat := by
      rw [List.drop_append, hle, htail, List.drop_eq_nil_of_le (by rw [hle]; exact hroom),
        List.nil_append]
    have hheadWrites := hwrites buf.buffer buf.inputLen.toNat (Bytes.le 4 s.length) 4 hbuf hle.ge
    rw [if_neg hshort]
    by_cases hhead : (lib.memcpyS buf.buffer buf.inputLen.toNat (Bytes.le 4 s.length) 4).1 = 0
    · obtain ⟨-, hcopied⟩ := hlib.of_eq_zero hhead
      rw [List.take_of_length_le hle.le] at hcopied
      have htake : (Bytes.le 4 s.length ++ buf.buffer.drop 4).take 4 = Bytes.le 4 s.length :=
        List.take_left' hle
      have hdrop : (Bytes.le 4 s.length ++ buf.buffer.drop 4).drop 4 = buf.buffer.drop 4 :=
        List.drop_left' hle
      have hrest : (buf.buffer.drop 4).drop (buf.inputLen.toNat - 4) =
          buf.buffer.drop buf.inputLen.toNat := by
        rw [List.drop_drop, Nat.add_sub_cancel' hroom]
      rw [if_neg (not_not.mpr hhead), hcopied]
      dsimp only
      rw [htake, hdrop, hleft]
      by_cases hlong : buf.inputLen - 4 < UInt32.ofNat s.length
      · rw [if_pos hlong]
        exact ⟨hframe _ hrest, fun h => absurd h (by decide : (-1 : Int) ≠ 0)⟩
      · have hbodyWrites := hwrites (buf.buffer.drop 4) (buf.inputLen.toNat - 4) s s.length
          (by rw [List.length_drop]; omega) (Nat.le_refl _)
        rw [hrest] at hbodyWrites
        rw [if_neg hlong]
        by_cases hbody : (lib.memcpyS (buf.buffer.drop 4) (buf.inputLen.toNat - 4) s s.length).1 = 0
        · obtain ⟨hcount, hcopiedBody⟩ := hlib.of_eq_zero hbody
          rw [List.take_length, List.drop_drop] at hcopiedBody
          rw [if_neg (not_not.mpr hbody)]
          refine ⟨hframe _ hbodyWrites, fun _ => ⟨by omega, ?_⟩⟩
          rw [hcopiedBody, ← List.append_assoc]
          rfl
        · rw [if_pos hbody]
          exact ⟨hframe _ hbodyWrites, fun h => absurd h hbody⟩
    · rw [if_pos hhead]
      exact ⟨hheadWrites, fun h => absurd h hhead⟩

/-! ### The certificate -/

variable {cmdline : Option CmdLine} {passwd : Option (List UInt8)} {caUid : UInt32} {fuel : Nat}

theorem toNat_left {inputLen : UInt32} {n : Nat} (h : 4 + n ≤ inputLen.toNat) :
    (inputLen - 4 - UInt32.ofNat n).toNat = inputLen.toNat - (4 + n) := by
  have hlt := inputLen.toNat_lt
  have hn : (UInt32.ofNat n).toNat = n := ofNat_toNat (by omega)
  have hfour : (4 : UInt32) ≤ inputLen := UInt32.le_iff_toNat_le.mpr (by
    rw [show (4 : UInt32).toNat = 4 from rfl]; omega)
  have hleft : (inputLen - 4).toNat = inputLen.toNat - 4 := UInt32.toNat_sub_of_le _ _ hfour
  rw [UInt32.toNat_sub_of_le _ _ (UInt32.le_iff_toNat_le.mpr (by rw [hn, hleft]; omega)), hn, hleft]
  omega

theorem toNat_written {n m : Nat} (h : 8 + n + m < 2 ^ 32) :
    (0 + 4 + UInt32.ofNat n + 4 + UInt32.ofNat m).toNat = 8 + n + m := by
  rw [UInt32.toNat_add, UInt32.toNat_add, UInt32.toNat_add, ofNat_toNat (by omega),
    ofNat_toNat (by omega), show (0 + 4 : UInt32).toNat = 4 from rfl,
    show (4 : UInt32).toNat = 4 from rfl]
  omega

/-- No name is found where the command line cannot be read. -/
theorem teeGetPkgName_reads {path path' : List UInt8} {pathLen : Nat}
    (h : teeGetPkgName mem cmdline path pathLen = some (0, path')) :
    ∃ content, cmdline = some ⟨content, false⟩ := by
  by_contra hunread
  rw [teeGetPkgName] at h
  by_cases hlength : maxPathLength < pathLen
  · rw [if_pos hlength] at h
    cases h
  rw [if_neg hlength] at h
  obtain ⟨name, hname, h⟩ := Option.map_eq_some_iff.mp h
  have hfails : name.1 = -1 := by
    rw [teeGetCaName] at hname
    split_ifs at hname with hzero
    · rw [← Option.some.inj hname]
    obtain ⟨⟨ret, buffer, caName⟩, hread, hname⟩ := Option.bind_eq_some_iff.mp hname
    have hret : ret = -1 := by
      rw [readCmdLine.eq_def] at hread
      cases cmdline with
      | none =>
          cases hread
          rfl
      | some fd =>
          have hferror : fd.ferror = true := by
            by_contra hfine
            exact hunread ⟨fd.content, by rw [← Bool.eq_false_of_not_eq_true hfine]⟩
          dsimp only at hread
          rw [if_pos (Or.inr hferror)] at hread
          cases hread
          rfl
    rw [hret, if_pos (show (-1 : Int) ≤ 0 by decide)] at hname
    rw [← Option.some.inj hname]
  rw [hfails, if_pos (show (-1 : Int) < 0 by decide)] at h
  cases h

/-- A certificate is written only of a command line and a passwd file that can be read. -/
theorem teeGetNativeCert_reads {out : Option (UInt32 × List UInt8)} {out' : Option (UInt32 × List UInt8)}
    (h : teeGetNativeCert mem lib cmdline passwd caUid fuel out = some (0, out')) :
    (∃ content, cmdline = some ⟨content, false⟩) ∧ ∃ file, passwd = some file := by
  rw [teeGetNativeCert.eq_def] at h
  cases out with
  | none => cases h
  | some out =>
      dsimp only at h
      obtain ⟨⟨ret, path⟩, hpkg, h⟩ := Option.bind_eq_some_iff.mp h
      split_ifs at h with hret
      · cases h
        exact absurd rfl hret
      rw [not_not] at hret
      dsimp only at hret
      rw [hret] at hpkg
      refine ⟨teeGetPkgName_reads hpkg, ?_⟩
      obtain ⟨pkgName, -, h⟩ := Option.bind_eq_some_iff.mp h
      split_ifs at h with hset
      · exact absurd (congrArg Prod.fst (Option.some.inj h)) hset
      obtain ⟨info, hinfo, h⟩ := Option.map_eq_some_iff.mp h
      rw [setUserInfoToBuf] at hinfo
      cases passwd with
      | none =>
          rw [teeGetUserName, Option.bind_some, if_pos (show (-1 : Int) ≠ 0 by decide)] at hinfo
          cases hinfo
          cases h
      | some file => exact ⟨file, rfl⟩

/-- The names are shorter than the buffers they are returned in. -/
theorem names_short (hmem : mem.CopiesStrings) (hfuel : ∀ file, passwd = some file → file.length < fuel)
    {path userName path' userName' pkgName name : List UInt8}
    (hpkg : teeGetPkgName mem cmdline (List.replicate maxPathLength 0) maxPathLength = some (0, path'))
    (hpkgName : read path' = some (pkgName, path))
    (huser : teeGetUserName passwd caUid (List.replicate maxNameLength 0) maxNameLength fuel =
      some (0, userName'))
    (hname : read userName' = some (name, userName)) :
    pkgName.length < 2 ^ 32 ∧ name.length < 2 ^ 32 := by
  have hshort {bytes s rest : List UInt8} (hread : read bytes = some (s, rest))
      (hbytes : bytes.length = 256) : s.length < 2 ^ 32 := by
    rw [(read_eq_some_iff.mp hread).1, List.length_append] at hbytes
    omega
  obtain ⟨ret, path'', hrun, hlength⟩ := teeGetPkgName_spec hmem cmdline
    (List.length_replicate (n := maxPathLength) (a := (0 : UInt8)))
  rw [hpkg] at hrun
  cases hrun
  exact ⟨hshort hpkgName (hlength rfl).1,
    hshort hname (teeGetUserName_buffer (by decide) (by decide) hfuel huser).1⟩

/-- For a package name and a user name as they are returned, the call writes the certificate of the two
or fails, and it fails if there is no room for it. -/
theorem teeGetNativeCert_spec (hmem : mem.CopiesStrings) (hlib : lib.CopiesWithinMax)
    (hwrites : lib.WritesWithinMax) (hfuel : ∀ file, passwd = some file → file.length < fuel)
    {path userName path' userName' pkgName name : List UInt8}
    (hpkg : teeGetPkgName mem cmdline (List.replicate maxPathLength 0) maxPathLength = some (0, path'))
    (hpkgName : read path' = some (pkgName, path))
    (huser : teeGetUserName passwd caUid (List.replicate maxNameLength 0) maxNameLength fuel =
      some (0, userName'))
    (hname : read userName' = some (name, userName))
    {inputLen : UInt32} {buffer : List UInt8} (hbuffer : inputLen.toNat ≤ buffer.length) :
    ∃ ret len buffer', teeGetNativeCert mem lib cmdline passwd caUid fuel (some (inputLen, buffer)) =
        some (ret, some (len, buffer')) ∧
      buffer'.drop inputLen.toNat = buffer.drop inputLen.toNat ∧
      (ret = 0 → len.toNat = 8 + pkgName.length + name.length ∧ len ≤ inputLen ∧
        buffer'.take len.toNat = encodeCert pkgName name ∧
        decodeCert (buffer'.take len.toNat) = (pkgName, name)) ∧
      (inputLen.toNat < 8 + pkgName.length + name.length → ret ≠ 0) ∧
      ∀ pkgName' name', pkgName'.length < 2 ^ 32 → name'.length < 2 ^ 32 →
        encodeCert pkgName' name' = encodeCert pkgName name → pkgName' = pkgName ∧ name' = name := by
  obtain ⟨hpkgLength, hnameLength⟩ : pkgName.length < 2 ^ 32 ∧ name.length < 2 ^ 32 :=
    names_short hmem hfuel hpkg hpkgName huser hname
  have hinjective := fun pkgName' name' hpkg' hname' =>
    @encodeCert_injective pkgName name pkgName' name' hpkgLength hnameLength hpkg' hname'
  obtain ⟨hframe, hset⟩ :=
    @setStringToBuf_spec lib hlib hwrites ⟨buffer, 0, inputLen⟩ pkgName hpkgLength hbuffer
  rw [teeGetNativeCert, hpkg, Option.bind_some, if_neg (not_not.mpr rfl), hpkgName, Option.bind_some]
  dsimp only at hframe hset ⊢
  rw [setPathToBuf]
  by_cases hret : (setStringToBuf lib ⟨buffer, 0, inputLen⟩ pkgName).1 = 0
  · obtain ⟨hroom, hrun⟩ := hset hret
    rw [if_neg (not_not.mpr hret), hrun]
    dsimp only
    rw [drop_framed, setUserInfoToBuf, huser, Option.bind_some, if_neg (not_not.mpr rfl), hname,
      Option.map_some, Option.map_some, setUserNameToBuf, List.take_left' (framed_length pkgName)]
    have hleft := toNat_left hroom
    obtain ⟨hframe', hset'⟩ := @setStringToBuf_spec lib hlib hwrites
      ⟨buffer.drop (4 + pkgName.length), 0 + 4 + UInt32.ofNat pkgName.length,
        inputLen - 4 - UInt32.ofNat pkgName.length⟩ name hnameLength
      (by dsimp only; rw [hleft, List.length_drop]; omega)
    dsimp only at hframe' hset'
    rw [hleft] at hframe' hset'
    refine ⟨_, _, _, rfl, ?_, fun h => ?_, fun hshort h => ?_, hinjective⟩
    · rw [List.drop_append, framed_length, hframe', List.drop_drop, Nat.add_sub_cancel' hroom,
        List.drop_eq_nil_of_le (by rw [framed_length]; exact hroom), List.nil_append]
    · obtain ⟨hroom', hrun'⟩ := hset' h
      have hlen : (0 + 4 + UInt32.ofNat pkgName.length + 4 + UInt32.ofNat name.length).toNat =
          8 + pkgName.length + name.length :=
        toNat_written (Nat.lt_of_le_of_lt (by omega) inputLen.toNat_lt)
      have hcert : (framed pkgName ++ (framed name ++
          (buffer.drop (4 + pkgName.length)).drop (4 + name.length))).take
            (8 + pkgName.length + name.length) = encodeCert pkgName name := by
        rw [← List.append_assoc]
        exact List.take_left' (encodeCert_length pkgName name)
      rw [hrun']
      dsimp only
      rw [hlen, hcert]
      refine ⟨rfl, UInt32.le_iff_toNat_le.mpr ?_, rfl, decodeCert_encodeCert hpkgLength hnameLength⟩
      rw [hlen]
      omega
    · have hroom' := (hset' h).1
      omega
  · rw [if_pos hret]
    exact ⟨_, _, _, rfl, hframe, fun h => absurd h hret, fun _ => hret, hinjective⟩

/-- The process `a` of the user `u` -/
theorem teeGetNativeCert_a_u : ∃ ret len buffer',
    teeGetNativeCert Securec.Memory.reference Securec.reference (some ⟨[97, 0], false⟩)
      (some [117, 58, 120, 58, 53, 58, 53, 58, 58, 58, 10]) 5 12 (some (16, List.replicate 16 0)) =
        some (ret, some (len, buffer')) ∧
      ret = 0 ∧ decodeCert (buffer'.take len.toNat) = ([97], [117]) := by
  have hpkg : teeGetPkgName Securec.Memory.reference (some ⟨[97, 0], false⟩)
      (List.replicate maxPathLength 0) maxPathLength = some (0, 97 :: List.replicate 255 0) := rfl
  have huser : teeGetUserName (some [117, 58, 120, 58, 53, 58, 53, 58, 58, 58, 10]) 5
      (List.replicate maxNameLength 0) maxNameLength 12 = some (0, 117 :: List.replicate 255 0) := rfl
  obtain ⟨ret, len, buffer', hrun, -, hcert, -⟩ :=
    teeGetNativeCert_spec Securec.Memory.reference_copiesStrings Securec.reference_copiesWithinMax
      Securec.reference_writesWithinMax (by rintro file ⟨⟩; decide) hpkg rfl huser rfl
      (show (16 : UInt32).toNat ≤ (List.replicate 16 (0 : UInt8)).length by decide)
  have hret : some ret = some 0 := by
    calc some ret = (teeGetNativeCert Securec.Memory.reference Securec.reference
            (some ⟨[97, 0], false⟩) (some [117, 58, 120, 58, 53, 58, 53, 58, 58, 58, 10]) 5 12
            (some (16, List.replicate 16 0))).map Prod.fst := by rw [hrun, Option.map_some]
      _ = some 0 := by decide +kernel
  obtain rfl := Option.some.inj hret
  exact ⟨0, len, buffer', hrun, rfl, (hcert rfl).2.2.2⟩

end ITrustee.Authentication
