import VexLLVM.Lib.BitTable

/-!
# Tables of bit masks

The settings of a terminal are fields of four words, whose masks and values the guest and the
host number each in their own way. A table lists the values of the fields of a word, and ends at
the first row without a mask.
-/

namespace VexLLVM

open BitTable

structure BitmaskTranstbl where
  x86Mask : BitVec 32
  x86Bits : BitVec 32
  alphaMask : BitVec 32
  alphaBits : BitVec 32
  deriving DecidableEq

def BitmaskTranstbl.toHost (btp : BitmaskTranstbl) : Row 32 :=
  ⟨btp.x86Mask, btp.x86Bits, btp.alphaMask, btp.alphaBits⟩

def transRows (transTbl : List BitmaskTranstbl) : List (Row 32) :=
  (transTbl.takeWhile fun btp => btp.x86Mask ≠ 0 && btp.alphaMask ≠ 0).map
    BitmaskTranstbl.toHost

def targetToHostBitmask (x86Mask : BitVec 32) (transTbl : List BitmaskTranstbl) : BitVec 32 :=
  translate (transRows transTbl) x86Mask

def hostToTargetBitmask (alphaMask : BitVec 32) (transTbl : List BitmaskTranstbl) : BitVec 32 :=
  translate ((transRows transTbl).map Row.swap) alphaMask

/-! ## The settings of a terminal -/

inductive Termbit
  | ignbrk | brkint | ignpar | parmrk | inpck | istrip | inlcr | igncr | icrnl | iuclc | ixon
  | ixany | ixoff | imaxbel
  | opost | olcuc | onlcr | ocrnl | onocr | onlret | ofill | ofdel | nldly | nl0 | nl1
  | crdly | cr0 | cr1 | cr2 | cr3 | tabdly | tab0 | tab1 | tab2 | tab3 | bsdly | bs0 | bs1
  | vtdly | vt0 | vt1 | ffdly | ff0 | ff1
  | cbaud | b0 | b50 | b75 | b110 | b134 | b150 | b200 | b300 | b600 | b1200 | b1800 | b2400
  | b4800 | b9600 | b19200 | b38400 | b57600 | b115200 | b230400 | b460800
  | csize | cs5 | cs6 | cs7 | cs8 | cstopb | cread | parenb | parodd | hupcl | clocal | crtscts
  | isig | icanon | xcase | echo | echoe | echok | echonl | noflsh | tostop | echoctl | echoprt
  | echoke | flusho | pendin | iexten
  deriving DecidableEq, Repr

/-- The guest's numbers, the same in the `termbits.h` of each guest. -/
def Termbit.target : Termbit → BitVec 32
  | .ignbrk => 0o1
  | .brkint => 0o2
  | .ignpar => 0o4
  | .parmrk => 0o10
  | .inpck => 0o20
  | .istrip => 0o40
  | .inlcr => 0o100
  | .igncr => 0o200
  | .icrnl => 0o400
  | .iuclc => 0o1000
  | .ixon => 0o2000
  | .ixany => 0o4000
  | .ixoff => 0o10000
  | .imaxbel => 0o20000
  | .opost => 0o1
  | .olcuc => 0o2
  | .onlcr => 0o4
  | .ocrnl => 0o10
  | .onocr => 0o20
  | .onlret => 0o40
  | .ofill => 0o100
  | .ofdel => 0o200
  | .nldly => 0o400
  | .nl0 => 0
  | .nl1 => 0o400
  | .crdly => 0o3000
  | .cr0 => 0
  | .cr1 => 0o1000
  | .cr2 => 0o2000
  | .cr3 => 0o3000
  | .tabdly => 0o14000
  | .tab0 => 0
  | .tab1 => 0o4000
  | .tab2 => 0o10000
  | .tab3 => 0o14000
  | .bsdly => 0o20000
  | .bs0 => 0
  | .bs1 => 0o20000
  | .vtdly => 0o40000
  | .vt0 => 0
  | .vt1 => 0o40000
  | .ffdly => 0o100000
  | .ff0 => 0
  | .ff1 => 0o100000
  | .cbaud => 0o10017
  | .b0 => 0
  | .b50 => 0o1
  | .b75 => 0o2
  | .b110 => 0o3
  | .b134 => 0o4
  | .b150 => 0o5
  | .b200 => 0o6
  | .b300 => 0o7
  | .b600 => 0o10
  | .b1200 => 0o11
  | .b1800 => 0o12
  | .b2400 => 0o13
  | .b4800 => 0o14
  | .b9600 => 0o15
  | .b19200 => 0o16
  | .b38400 => 0o17
  | .b57600 => 0o10001
  | .b115200 => 0o10002
  | .b230400 => 0o10003
  | .b460800 => 0o10004
  | .csize => 0o60
  | .cs5 => 0
  | .cs6 => 0o20
  | .cs7 => 0o40
  | .cs8 => 0o60
  | .cstopb => 0o100
  | .cread => 0o200
  | .parenb => 0o400
  | .parodd => 0o1000
  | .hupcl => 0o2000
  | .clocal => 0o4000
  | .crtscts => 0o20000000000
  | .isig => 0o1
  | .icanon => 0o2
  | .xcase => 0o4
  | .echo => 0o10
  | .echoe => 0o20
  | .echok => 0o40
  | .echonl => 0o100
  | .noflsh => 0o200
  | .tostop => 0o400
  | .echoctl => 0o1000
  | .echoprt => 0o2000
  | .echoke => 0o4000
  | .flusho => 0o10000
  | .pendin => 0o40000
  | .iexten => 0o100000

def transRow (host : Termbit → BitVec 32) (mask bits : Termbit) : BitmaskTranstbl :=
  ⟨mask.target, bits.target, host mask, host bits⟩

def fieldRows (host : Termbit → BitVec 32) (mask : Termbit) (values : List Termbit) :
    List BitmaskTranstbl :=
  values.map (transRow host mask)

/-- The rows of flags, each the one value of a field of its own. -/
def flagRows (host : Termbit → BitVec 32) (flags : List Termbit) : List BitmaskTranstbl :=
  flags.map fun f => transRow host f f

def iflagTbl (host : Termbit → BitVec 32) : List BitmaskTranstbl :=
  flagRows host [.ignbrk, .brkint, .ignpar, .parmrk, .inpck, .istrip, .inlcr, .igncr, .icrnl,
    .iuclc, .ixon, .ixany, .ixoff, .imaxbel] ++
  [⟨0, 0, 0, 0⟩]

def oflagTbl (host : Termbit → BitVec 32) : List BitmaskTranstbl :=
  flagRows host [.opost, .olcuc, .onlcr, .ocrnl, .onocr, .onlret, .ofill, .ofdel] ++
  fieldRows host .nldly [.nl0, .nl1] ++
  fieldRows host .crdly [.cr0, .cr1, .cr2, .cr3] ++
  fieldRows host .tabdly [.tab0, .tab1, .tab2, .tab3] ++
  fieldRows host .bsdly [.bs0, .bs1] ++
  fieldRows host .vtdly [.vt0, .vt1] ++
  fieldRows host .ffdly [.ff0, .ff1] ++
  [⟨0, 0, 0, 0⟩]

def cflagTbl (host : Termbit → BitVec 32) : List BitmaskTranstbl :=
  fieldRows host .cbaud [.b0, .b50, .b75, .b110, .b134, .b150, .b200, .b300, .b600, .b1200,
    .b1800, .b2400, .b4800, .b9600, .b19200, .b38400, .b57600, .b115200, .b230400, .b460800] ++
  fieldRows host .csize [.cs5, .cs6, .cs7, .cs8] ++
  flagRows host [.cstopb, .cread, .parenb, .parodd, .hupcl, .clocal, .crtscts] ++
  [⟨0, 0, 0, 0⟩]

def lflagTbl (host : Termbit → BitVec 32) : List BitmaskTranstbl :=
  flagRows host [.isig, .icanon, .xcase, .echo, .echoe, .echok, .echonl, .noflsh, .tostop,
    .echoctl, .echoprt, .echoke, .flusho, .pendin, .iexten] ++
  [⟨0, 0, 0, 0⟩]

inductive FlagWord
  | iflag | oflag | cflag | lflag
  deriving DecidableEq, Repr

def FlagWord.all : List FlagWord := [.iflag, .oflag, .cflag, .lflag]

def FlagWord.tbl (host : Termbit → BitVec 32) : FlagWord → List BitmaskTranstbl
  | .iflag => iflagTbl host
  | .oflag => oflagTbl host
  | .cflag => cflagTbl host
  | .lflag => lflagTbl host

inductive ControlChar
  | vintr | vquit | verase | vkill | veof | vtime | vmin | vswtc | vstart | vstop | vsusp | veol
  | vreprint | vdiscard | vwerase | vlnext | veol2
  deriving DecidableEq, Repr

def ControlChar.all : List ControlChar :=
  [.vintr, .vquit, .verase, .vkill, .veof, .vtime, .vmin, .vswtc, .vstart, .vstop, .vsusp, .veol,
    .vreprint, .vdiscard, .vwerase, .vlnext, .veol2]

def ControlChar.target : ControlChar → ℕ
  | .vintr => 0
  | .vquit => 1
  | .verase => 2
  | .vkill => 3
  | .veof => 4
  | .vtime => 5
  | .vmin => 6
  | .vswtc => 7
  | .vstart => 8
  | .vstop => 9
  | .vsusp => 10
  | .veol => 11
  | .vreprint => 12
  | .vdiscard => 13
  | .vwerase => 14
  | .vlnext => 15
  | .veol2 => 16

def targetNccs : ℕ := 19

/-- The place of a word of settings in the structure of either side. -/
def FlagWord.offset : FlagWord → ℕ
  | .iflag => 0
  | .oflag => 4
  | .cflag => 8
  | .lflag => 12

def cLine : ℕ := 16

def cCc : ℕ := 17

/-- The masks of a word's fields on the host do not meet, the values of a field differ and lie
within its mask, and a value is zero on the host where it is for the guest and nowhere else. -/
structure HostTermbits where
  bits : Termbit → BitVec 32
  cc : ControlChar → ℕ
  nccs : ℕ
  /-- `sizeof(struct host_termios)`. -/
  size : ℕ
  align : ℕ
  fields : ∀ word : FlagWord, Fields (transRows (word.tbl bits))
  cc_lt : ∀ c, cc c < nccs
  cc_injective : Function.Injective cc
  le_size : cCc + nccs ≤ size

theorem ControlChar.mem_all (c : ControlChar) : c ∈ ControlChar.all := by
  cases c <;> decide

theorem ControlChar.target_lt (c : ControlChar) : c.target < targetNccs := by
  cases c <;> decide

theorem ControlChar.target_injective : Function.Injective ControlChar.target := by
  intro c d h
  revert h
  cases c <;> cases d <;> decide

theorem FlagWord.mem_all (word : FlagWord) : word ∈ FlagWord.all := by
  cases word <;> decide

def linuxTermbits : HostTermbits where
  bits := Termbit.target
  cc := ControlChar.target
  nccs := 32
  size := 60
  align := 4
  fields := by
    intro word
    cases word <;> decide +kernel
  cc_lt c := c.target_lt.trans (by decide)
  cc_injective := ControlChar.target_injective
  le_size := by decide

end VexLLVM
