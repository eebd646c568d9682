import Mime.Charset.Table
import Mime.Text.Ascii
import Mime.Text.Whitespace

/-! # Charsets and their labels

The charsets of the WHATWG Encoding Standard, each under its name, and the labels that select
them.  A label is trimmed and its case ignored. -/

namespace Mime

/-- The charsets of East Asia, in which a character takes one byte or more. -/
inductive Charset.MultiByte where
  | gbk
  | gb18030
  | big5
  | eucJp
  | iso2022Jp
  | shiftJis
  | eucKr
deriving DecidableEq, Repr

/-- How a charset turns bytes into text. -/
inductive Charset.Scheme where
  | utf8
  | utf16 (bigEndian : Bool)
  | singleByte (upper : Charset.Runs)
  | multiByte (m : Charset.MultiByte)
  | replacement
deriving DecidableEq, Repr

/-- A charset: its name and its scheme. -/
structure Charset where
  name : String
  scheme : Charset.Scheme
deriving DecidableEq, Repr

namespace Charset

/-- The charset of a text that declares none. -/
def utf8 : Charset := ⟨"UTF-8", .utf8⟩

/-- The charsets with their labels. -/
def registry : List (Charset × List String) :=
  [(utf8,
    ["unicode-1-1-utf-8", "unicode11utf8", "unicode20utf8", "utf-8", "utf8", "x-unicode20utf8"]),
   (⟨"IBM866", .singleByte Table.ibm866⟩,
    ["866", "cp866", "csibm866", "ibm866"]),
   (⟨"ISO-8859-2", .singleByte Table.iso88592⟩,
    ["csisolatin2", "iso-8859-2", "iso-ir-101", "iso8859-2", "iso88592", "iso_8859-2",
     "iso_8859-2:1987", "l2", "latin2"]),
   (⟨"ISO-8859-3", .singleByte Table.iso88593⟩,
    ["csisolatin3", "iso-8859-3", "iso-ir-109", "iso8859-3", "iso88593", "iso_8859-3",
     "iso_8859-3:1988", "l3", "latin3"]),
   (⟨"ISO-8859-4", .singleByte Table.iso88594⟩,
    ["csisolatin4", "iso-8859-4", "iso-ir-110", "iso8859-4", "iso88594", "iso_8859-4",
     "iso_8859-4:1988", "l4", "latin4"]),
   (⟨"ISO-8859-5", .singleByte Table.iso88595⟩,
    ["csisolatincyrillic", "cyrillic", "iso-8859-5", "iso-ir-144", "iso8859-5", "iso88595",
     "iso_8859-5", "iso_8859-5:1988"]),
   (⟨"ISO-8859-6", .singleByte Table.iso88596⟩,
    ["arabic", "asmo-708", "csiso88596e", "csiso88596i", "csisolatinarabic", "ecma-114",
     "iso-8859-6", "iso-8859-6-e", "iso-8859-6-i", "iso-ir-127", "iso8859-6", "iso88596",
     "iso_8859-6", "iso_8859-6:1987"]),
   (⟨"ISO-8859-7", .singleByte Table.iso88597⟩,
    ["csisolatingreek", "ecma-118", "elot_928", "greek", "greek8", "iso-8859-7", "iso-ir-126",
     "iso8859-7", "iso88597", "iso_8859-7", "iso_8859-7:1987", "sun_eu_greek"]),
   (⟨"ISO-8859-8", .singleByte Table.iso88598⟩,
    ["csiso88598e", "csisolatinhebrew", "hebrew", "iso-8859-8", "iso-8859-8-e", "iso-ir-138",
     "iso8859-8", "iso88598", "iso_8859-8", "iso_8859-8:1988", "visual"]),
   (⟨"ISO-8859-8-I", .singleByte Table.iso88598⟩,
    ["csiso88598i", "iso-8859-8-i", "logical"]),
   (⟨"ISO-8859-10", .singleByte Table.iso885910⟩,
    ["csisolatin6", "iso-8859-10", "iso-ir-157", "iso8859-10", "iso885910", "l6", "latin6"]),
   (⟨"ISO-8859-13", .singleByte Table.iso885913⟩,
    ["iso-8859-13", "iso8859-13", "iso885913"]),
   (⟨"ISO-8859-14", .singleByte Table.iso885914⟩,
    ["iso-8859-14", "iso8859-14", "iso885914"]),
   (⟨"ISO-8859-15", .singleByte Table.iso885915⟩,
    ["csisolatin9", "iso-8859-15", "iso8859-15", "iso885915", "iso_8859-15", "l9"]),
   (⟨"ISO-8859-16", .singleByte Table.iso885916⟩,
    ["iso-8859-16"]),
   (⟨"KOI8-R", .singleByte Table.koi8R⟩,
    ["cskoi8r", "koi", "koi8", "koi8-r", "koi8_r"]),
   (⟨"KOI8-U", .singleByte Table.koi8U⟩,
    ["koi8-ru", "koi8-u"]),
   (⟨"macintosh", .singleByte Table.macintosh⟩,
    ["csmacintosh", "mac", "macintosh", "x-mac-roman"]),
   (⟨"windows-874", .singleByte Table.windows874⟩,
    ["dos-874", "iso-8859-11", "iso8859-11", "iso885911", "tis-620", "windows-874"]),
   (⟨"windows-1250", .singleByte Table.windows1250⟩,
    ["cp1250", "windows-1250", "x-cp1250"]),
   (⟨"windows-1251", .singleByte Table.windows1251⟩,
    ["cp1251", "windows-1251", "x-cp1251"]),
   (⟨"windows-1252", .singleByte Table.windows1252⟩,
    ["ansi_x3.4-1968", "ascii", "cp1252", "cp819", "csisolatin1", "ibm819", "iso-8859-1",
     "iso-ir-100", "iso8859-1", "iso88591", "iso_8859-1", "iso_8859-1:1987", "l1", "latin1",
     "us-ascii", "windows-1252", "x-cp1252"]),
   (⟨"windows-1253", .singleByte Table.windows1253⟩,
    ["cp1253", "windows-1253", "x-cp1253"]),
   (⟨"windows-1254", .singleByte Table.windows1254⟩,
    ["cp1254", "csisolatin5", "iso-8859-9", "iso-ir-148", "iso8859-9", "iso88599", "iso_8859-9",
     "iso_8859-9:1989", "l5", "latin5", "windows-1254", "x-cp1254"]),
   (⟨"windows-1255", .singleByte Table.windows1255⟩,
    ["cp1255", "windows-1255", "x-cp1255"]),
   (⟨"windows-1256", .singleByte Table.windows1256⟩,
    ["cp1256", "windows-1256", "x-cp1256"]),
   (⟨"windows-1257", .singleByte Table.windows1257⟩,
    ["cp1257", "windows-1257", "x-cp1257"]),
   (⟨"windows-1258", .singleByte Table.windows1258⟩,
    ["cp1258", "windows-1258", "x-cp1258"]),
   (⟨"x-mac-cyrillic", .singleByte Table.xMacCyrillic⟩,
    ["x-mac-cyrillic", "x-mac-ukrainian"]),
   (⟨"GBK", .multiByte .gbk⟩,
    ["chinese", "csgb2312", "csiso58gb231280", "gb2312", "gb_2312", "gb_2312-80", "gbk",
     "iso-ir-58", "x-gbk"]),
   (⟨"gb18030", .multiByte .gb18030⟩,
    ["gb18030"]),
   (⟨"Big5", .multiByte .big5⟩,
    ["big5", "big5-hkscs", "cn-big5", "csbig5", "x-x-big5"]),
   (⟨"EUC-JP", .multiByte .eucJp⟩,
    ["cseucpkdfmtjapanese", "euc-jp", "x-euc-jp"]),
   (⟨"ISO-2022-JP", .multiByte .iso2022Jp⟩,
    ["csiso2022jp", "iso-2022-jp"]),
   (⟨"Shift_JIS", .multiByte .shiftJis⟩,
    ["csshiftjis", "ms932", "ms_kanji", "shift-jis", "shift_jis", "sjis", "windows-31j",
     "x-sjis"]),
   (⟨"EUC-KR", .multiByte .eucKr⟩,
    ["cseuckr", "csksc56011987", "euc-kr", "iso-ir-149", "korean", "ks_c_5601-1987",
     "ks_c_5601-1989", "ksc5601", "ksc_5601", "windows-949"]),
   (⟨"replacement", .replacement⟩,
    ["csiso2022kr", "hz-gb-2312", "iso-2022-cn", "iso-2022-cn-ext", "iso-2022-kr",
     "replacement"]),
   (⟨"UTF-16BE", .utf16 true⟩,
    ["unicodefffe", "utf-16be"]),
   (⟨"UTF-16LE", .utf16 false⟩,
    ["csunicode", "iso-10646-ucs-2", "ucs-2", "unicode", "unicodefeff", "utf-16", "utf-16le"]),
   (⟨"x-user-defined", .singleByte Table.xUserDefined⟩,
    ["x-user-defined"])]

/-- The charset that a label selects. -/
def ofLabel? (label : String) : Option Charset :=
  let wanted := Text.lower (Text.trimmed label)
  (registry.find? fun entry => wanted ∈ entry.2).map Prod.fst

/-- The charset of a declaration; without one it is UTF-8. -/
def ofDeclaration? : Option String → Option Charset
  | none => some utf8
  | some label => ofLabel? label

end Charset
end Mime
