import Cascade.Charset.Coding

/-!
# The registry of character sets

All registered character sets with their names. Many of them cannot be read.
-/

namespace Cascade.Charset

structure Registered where
  name : Bytes
  aliases : List Bytes
  /-- How it spells characters; none if it cannot be read. -/
  coding : Option Coding

def Registered.answersTo (r : Registered) (key : Bytes) : Bool :=
  r.name.lower == key || r.aliases.any fun a => a.lower == key

def readable (name : String) (aliases : List String) (coding : Coding) : Registered :=
  ⟨text name, aliases.map text, some coding⟩

def unreadable (name : String) (aliases : List String) : Registered :=
  ⟨text name, aliases.map text, none⟩

def readables : List Registered := [
  readable "UTF-8" ["csUTF8"] .utf8,
  readable "US-ASCII" ["iso-ir-6", "ANSI_X3.4-1968", "ANSI_X3.4-1986", "ISO_646.irv:1991",
    "ISO646-US", "us", "IBM367", "cp367", "csASCII"] (.upper #[]),
  readable "ISO_8859-1:1987" ["iso-ir-100", "ISO_8859-1", "ISO-8859-1", "latin1", "l1", "IBM819",
    "CP819", "csISOLatin1"] (.upper Table.iso1),
  readable "ISO_8859-2:1987" ["iso-ir-101", "ISO_8859-2", "ISO-8859-2", "latin2", "l2",
    "csISOLatin2"] (.upper Table.iso2),
  readable "ISO_8859-3:1988" ["iso-ir-109", "ISO_8859-3", "ISO-8859-3", "latin3", "l3",
    "csISOLatin3"] (.upper Table.iso3),
  readable "ISO_8859-4:1988" ["iso-ir-110", "ISO_8859-4", "ISO-8859-4", "latin4", "l4",
    "csISOLatin4"] (.upper Table.iso4),
  readable "ISO_8859-5:1988" ["iso-ir-144", "ISO_8859-5", "ISO-8859-5", "cyrillic",
    "csISOLatinCyrillic"] (.upper Table.iso5),
  readable "ISO_8859-6:1987" ["iso-ir-127", "ISO_8859-6", "ISO-8859-6", "ECMA-114", "ASMO-708",
    "arabic", "csISOLatinArabic"] (.upper Table.iso6),
  readable "ISO_8859-7:1987" ["iso-ir-126", "ISO_8859-7", "ISO-8859-7", "ELOT_928", "ECMA-118",
    "greek", "greek8", "csISOLatinGreek"] (.upper Table.iso7),
  readable "ISO_8859-8:1988" ["iso-ir-138", "ISO_8859-8", "ISO-8859-8", "hebrew",
    "csISOLatinHebrew"] (.upper Table.iso8),
  readable "ISO_8859-9:1989" ["iso-ir-148", "ISO_8859-9", "ISO-8859-9", "latin5", "l5",
    "csISOLatin5"] (.upper Table.iso9),
  readable "ISO-8859-10" ["iso-ir-157", "l6", "ISO_8859-10:1992", "csISOLatin6", "latin6"]
    (.upper Table.iso10),
  readable "Shift_JIS" ["MS_Kanji", "csShiftJIS"] (.multibyte .shiftJis),
  readable "Extended_UNIX_Code_Packed_Format_for_Japanese" ["csEUCPkdFmtJapanese", "EUC-JP"]
    (.multibyte .eucJp),
  readable "EUC-KR" ["csEUCKR"] (.multibyte .eucKr),
  readable "ISO-2022-JP" ["csISO2022JP"] (.multibyte .iso2022Jp),
  readable "ISO_8859-6-E" ["csISO88596E", "ISO-8859-6-E"] (.upper Table.iso6),
  readable "ISO_8859-6-I" ["csISO88596I", "ISO-8859-6-I"] (.upper Table.iso6),
  readable "ISO_8859-8-E" ["csISO88598E", "ISO-8859-8-E"] (.upper Table.iso8),
  readable "ISO_8859-8-I" ["csISO88598I", "ISO-8859-8-I"] (.upper Table.iso8),
  readable "ISO-8859-13" ["csISO885913"] (.upper Table.iso13),
  readable "ISO-8859-14" ["iso-ir-199", "ISO_8859-14:1998", "ISO_8859-14", "latin8",
    "iso-celtic", "l8", "csISO885914"] (.upper Table.iso14),
  readable "ISO-8859-15" ["ISO_8859-15", "Latin-9", "csISO885915"] (.upper Table.iso15),
  readable "ISO-8859-16" ["iso-ir-226", "ISO_8859-16:2001", "ISO_8859-16", "latin10", "l10",
    "csISO885916"] (.upper Table.iso16),
  readable "GBK" ["CP936", "MS936", "windows-936", "csGBK"] (.multibyte .gbk),
  readable "GB18030" ["csGB18030"] (.multibyte .gb18030),
  readable "UTF-16BE" ["csUTF16BE"] (.utf16 (some .big)),
  readable "UTF-16LE" ["csUTF16LE"] (.utf16 (some .little)),
  readable "UTF-16" ["csUTF16"] (.utf16 none),
  readable "IBM850" ["cp850", "850", "csPC850Multilingual"] (.upper Table.ibm850),
  readable "IBM852" ["cp852", "852", "csPCp852"] (.upper Table.ibm852),
  readable "IBM437" ["cp437", "437", "csPC8CodePage437"] (.upper Table.ibm437),
  readable "IBM862" ["cp862", "862", "csPC862LatinHebrew"] (.upper Table.ibm862),
  readable "Big5" ["csBig5"] (.multibyte .big5),
  readable "macintosh" ["mac", "csMacintosh"] (.upper Table.macintosh),
  readable "IBM037" ["cp037", "ebcdic-cp-us", "ebcdic-cp-ca", "ebcdic-cp-wt", "ebcdic-cp-nl",
    "csIBM037"] (.full Table.ibm037),
  readable "IBM855" ["cp855", "855", "csIBM855"] (.upper Table.ibm855),
  readable "IBM860" ["cp860", "860", "csIBM860"] (.upper Table.ibm860),
  readable "IBM863" ["cp863", "863", "csIBM863"] (.upper Table.ibm863),
  readable "IBM865" ["cp865", "865", "csIBM865"] (.upper Table.ibm865),
  readable "KOI8-R" ["csKOI8R"] (.upper Table.koi8r),
  readable "HZ-GB-2312" [] (.multibyte .hz),
  readable "IBM866" ["cp866", "866", "csIBM866"] (.upper Table.ibm866),
  readable "KOI8-U" ["csKOI8U"] (.upper Table.koi8u),
  readable "IBM00858" ["CCSID00858", "CP00858", "PC-Multilingual-850+euro", "csIBM00858"] (.upper
    Table.ibm858),
  readable "IBM01140" ["CCSID01140", "CP01140", "ebcdic-us-37+euro", "csIBM01140"] (.full
    Table.ibm1140),
  readable "IBM1047" ["IBM-1047", "csIBM1047"] (.full Table.ibm1047),
  readable "windows-874" ["cswindows874"] (.upper Table.windows874),
  readable "windows-1250" ["cswindows1250"] (.upper Table.windows1250),
  readable "windows-1251" ["cswindows1251"] (.upper Table.windows1251),
  readable "windows-1252" ["cswindows1252"] (.upper Table.windows1252),
  readable "windows-1253" ["cswindows1253"] (.upper Table.windows1253),
  readable "windows-1254" ["cswindows1254"] (.upper Table.windows1254),
  readable "windows-1255" ["cswindows1255"] (.upper Table.windows1255),
  readable "windows-1256" ["cswindows1256"] (.upper Table.windows1256),
  readable "windows-1257" ["cswindows1257"] (.upper Table.windows1257),
  readable "windows-1258" ["cswindows1258"] (.upper Table.windows1258)]

def unreadables : List Registered := [
  unreadable "ISO_6937-2-add" ["iso-ir-142", "csISOTextComm"],
  unreadable "JIS_X0201" ["X0201", "csHalfWidthKatakana"],
  unreadable "JIS_Encoding" ["csJISEncoding"],
  unreadable "Extended_UNIX_Code_Fixed_Width_for_Japanese" ["csEUCFixWidJapanese"],
  unreadable "BS_4730" ["iso-ir-4", "ISO646-GB", "gb", "uk", "csISO4UnitedKingdom"],
  unreadable "SEN_850200_C" ["iso-ir-11", "ISO646-SE2", "se2", "csISO11SwedishForNames"],
  unreadable "IT" ["iso-ir-15", "ISO646-IT", "csISO15Italian"],
  unreadable "ES" ["iso-ir-17", "ISO646-ES", "csISO17Spanish"],
  unreadable "DIN_66003" ["iso-ir-21", "de", "ISO646-DE", "csISO21German"],
  unreadable "NS_4551-1" ["iso-ir-60", "ISO646-NO", "no", "csISO60DanishNorwegian",
    "csISO60Norwegian1"],
  unreadable "NF_Z_62-010" ["iso-ir-69", "ISO646-FR", "fr", "csISO69French"],
  unreadable "ISO-10646-UTF-1" ["csISO10646UTF1"],
  unreadable "ISO_646.basic:1983" ["ref", "csISO646basic1983"],
  unreadable "INVARIANT" ["csINVARIANT"],
  unreadable "ISO_646.irv:1983" ["iso-ir-2", "irv", "csISO2IntlRefVersion"],
  unreadable "NATS-SEFI" ["iso-ir-8-1", "csNATSSEFI"],
  unreadable "NATS-SEFI-ADD" ["iso-ir-8-2", "csNATSSEFIADD"],
  unreadable "NATS-DANO" ["iso-ir-9-1", "csNATSDANO"],
  unreadable "NATS-DANO-ADD" ["iso-ir-9-2", "csNATSDANOADD"],
  unreadable "SEN_850200_B" ["iso-ir-10", "FI", "ISO646-FI", "ISO646-SE", "se", "csISO10Swedish"],
  unreadable "KS_C_5601-1987" ["iso-ir-149", "KS_C_5601-1989", "KSC_5601", "korean",
    "csKSC56011987"],
  unreadable "ISO-2022-KR" ["csISO2022KR"],
  unreadable "ISO-2022-JP-2" ["csISO2022JP2"],
  unreadable "JIS_C6220-1969-jp" ["JIS_C6220-1969", "iso-ir-13", "katakana", "x0201-7",
    "csISO13JISC6220jp"],
  unreadable "JIS_C6220-1969-ro" ["iso-ir-14", "jp", "ISO646-JP", "csISO14JISC6220ro"],
  unreadable "PT" ["iso-ir-16", "ISO646-PT", "csISO16Portuguese"],
  unreadable "greek7-old" ["iso-ir-18", "csISO18Greek7Old"],
  unreadable "latin-greek" ["iso-ir-19", "csISO19LatinGreek"],
  unreadable "NF_Z_62-010_(1973)" ["iso-ir-25", "ISO646-FR1", "csISO25French"],
  unreadable "Latin-greek-1" ["iso-ir-27", "csISO27LatinGreek1"],
  unreadable "ISO_5427" ["iso-ir-37", "csISO5427Cyrillic"],
  unreadable "JIS_C6226-1978" ["iso-ir-42", "csISO42JISC62261978"],
  unreadable "BS_viewdata" ["iso-ir-47", "csISO47BSViewdata"],
  unreadable "INIS" ["iso-ir-49", "csISO49INIS"],
  unreadable "INIS-8" ["iso-ir-50", "csISO50INIS8"],
  unreadable "INIS-cyrillic" ["iso-ir-51", "csISO51INISCyrillic"],
  unreadable "ISO_5427:1981" ["iso-ir-54", "ISO5427Cyrillic1981", "csISO54271981"],
  unreadable "ISO_5428:1980" ["iso-ir-55", "csISO5428Greek"],
  unreadable "GB_1988-80" ["iso-ir-57", "cn", "ISO646-CN", "csISO57GB1988"],
  unreadable "GB_2312-80" ["iso-ir-58", "chinese", "csISO58GB231280"],
  unreadable "NS_4551-2" ["ISO646-NO2", "iso-ir-61", "no2", "csISO61Norwegian2"],
  unreadable "videotex-suppl" ["iso-ir-70", "csISO70VideotexSupp1"],
  unreadable "PT2" ["iso-ir-84", "ISO646-PT2", "csISO84Portuguese2"],
  unreadable "ES2" ["iso-ir-85", "ISO646-ES2", "csISO85Spanish2"],
  unreadable "MSZ_7795.3" ["iso-ir-86", "ISO646-HU", "hu", "csISO86Hungarian"],
  unreadable "JIS_C6226-1983" ["iso-ir-87", "x0208", "JIS_X0208-1983", "csISO87JISX0208"],
  unreadable "greek7" ["iso-ir-88", "csISO88Greek7"],
  unreadable "ASMO_449" ["ISO_9036", "arabic7", "iso-ir-89", "csISO89ASMO449"],
  unreadable "iso-ir-90" ["csISO90"],
  unreadable "JIS_C6229-1984-a" ["iso-ir-91", "jp-ocr-a", "csISO91JISC62291984a"],
  unreadable "JIS_C6229-1984-b" ["iso-ir-92", "ISO646-JP-OCR-B", "jp-ocr-b",
    "csISO92JISC62991984b"],
  unreadable "JIS_C6229-1984-b-add" ["iso-ir-93", "jp-ocr-b-add", "csISO93JIS62291984badd"],
  unreadable "JIS_C6229-1984-hand" ["iso-ir-94", "jp-ocr-hand", "csISO94JIS62291984hand"],
  unreadable "JIS_C6229-1984-hand-add" ["iso-ir-95", "jp-ocr-hand-add",
    "csISO95JIS62291984handadd"],
  unreadable "JIS_C6229-1984-kana" ["iso-ir-96", "csISO96JISC62291984kana"],
  unreadable "ISO_2033-1983" ["iso-ir-98", "e13b", "csISO2033"],
  unreadable "ANSI_X3.110-1983" ["iso-ir-99", "CSA_T500-1983", "NAPLPS", "csISO99NAPLPS"],
  unreadable "T.61-7bit" ["iso-ir-102", "csISO102T617bit"],
  unreadable "T.61-8bit" ["T.61", "iso-ir-103", "csISO103T618bit"],
  unreadable "ECMA-cyrillic" ["iso-ir-111", "KOI8-E", "csISO111ECMACyrillic"],
  unreadable "CSA_Z243.4-1985-1" ["iso-ir-121", "ISO646-CA", "csa7-1", "csa71", "ca",
    "csISO121Canadian1"],
  unreadable "CSA_Z243.4-1985-2" ["iso-ir-122", "ISO646-CA2", "csa7-2", "csa72",
    "csISO122Canadian2"],
  unreadable "CSA_Z243.4-1985-gr" ["iso-ir-123", "csISO123CSAZ24341985gr"],
  unreadable "T.101-G2" ["iso-ir-128", "csISO128T101G2"],
  unreadable "CSN_369103" ["iso-ir-139", "csISO139CSN369103"],
  unreadable "JUS_I.B1.002" ["iso-ir-141", "ISO646-YU", "js", "yu", "csISO141JUSIB1002"],
  unreadable "IEC_P27-1" ["iso-ir-143", "csISO143IECP271"],
  unreadable "JUS_I.B1.003-serb" ["iso-ir-146", "serbian", "csISO146Serbian"],
  unreadable "JUS_I.B1.003-mac" ["macedonian", "iso-ir-147", "csISO147Macedonian"],
  unreadable "greek-ccitt" ["iso-ir-150", "csISO150", "csISO150GreekCCITT"],
  unreadable "NC_NC00-10:81" ["cuba", "iso-ir-151", "ISO646-CU", "csISO151Cuba"],
  unreadable "ISO_6937-2-25" ["iso-ir-152", "csISO6937Add"],
  unreadable "GOST_19768-74" ["ST_SEV_358-88", "iso-ir-153", "csISO153GOST1976874"],
  unreadable "ISO_8859-supp" ["iso-ir-154", "latin1-2-5", "csISO8859Supp"],
  unreadable "ISO_10367-box" ["iso-ir-155", "csISO10367Box"],
  unreadable "latin-lap" ["lap", "iso-ir-158", "csISO158Lap"],
  unreadable "JIS_X0212-1990" ["x0212", "iso-ir-159", "csISO159JISX02121990"],
  unreadable "DS_2089" ["DS2089", "ISO646-DK", "dk", "csISO646Danish"],
  unreadable "us-dk" ["csUSDK"],
  unreadable "dk-us" ["csDKUS"],
  unreadable "KSC5636" ["ISO646-KR", "csKSC5636"],
  unreadable "UNICODE-1-1-UTF-7" ["csUnicode11UTF7"],
  unreadable "ISO-2022-CN" ["csISO2022CN"],
  unreadable "ISO-2022-CN-EXT" ["csISO2022CNEXT"],
  unreadable "OSD_EBCDIC_DF04_15" ["csOSDEBCDICDF0415"],
  unreadable "OSD_EBCDIC_DF03_IRV" ["csOSDEBCDICDF03IRV"],
  unreadable "OSD_EBCDIC_DF04_1" ["csOSDEBCDICDF041"],
  unreadable "ISO-11548-1" ["ISO_11548-1", "ISO_TR_11548-1", "csISO115481"],
  unreadable "KZ-1048" ["STRK1048-2002", "RK1048", "csKZ1048"],
  unreadable "ISO-10646-UCS-2" ["csUnicode"],
  unreadable "ISO-10646-UCS-4" ["csUCS4"],
  unreadable "ISO-10646-UCS-Basic" ["csUnicodeASCII"],
  unreadable "ISO-10646-Unicode-Latin1" ["csUnicodeLatin1", "ISO-10646"],
  unreadable "ISO-10646-J-1" ["csUnicodeJapanese"],
  unreadable "ISO-Unicode-IBM-1261" ["csUnicodeIBM1261"],
  unreadable "ISO-Unicode-IBM-1268" ["csUnicodeIBM1268"],
  unreadable "ISO-Unicode-IBM-1276" ["csUnicodeIBM1276"],
  unreadable "ISO-Unicode-IBM-1264" ["csUnicodeIBM1264"],
  unreadable "ISO-Unicode-IBM-1265" ["csUnicodeIBM1265"],
  unreadable "UNICODE-1-1" ["csUnicode11"],
  unreadable "SCSU" ["csSCSU"],
  unreadable "UTF-7" ["csUTF7"],
  unreadable "CESU-8" ["csCESU8", "csCESU-8"],
  unreadable "UTF-32" ["csUTF32"],
  unreadable "UTF-32BE" ["csUTF32BE"],
  unreadable "UTF-32LE" ["csUTF32LE"],
  unreadable "BOCU-1" ["csBOCU1", "csBOCU-1"],
  unreadable "ISO-8859-1-Windows-3.0-Latin-1" ["csWindows30Latin1"],
  unreadable "ISO-8859-1-Windows-3.1-Latin-1" ["csWindows31Latin1"],
  unreadable "ISO-8859-2-Windows-Latin-2" ["csWindows31Latin2"],
  unreadable "ISO-8859-9-Windows-Latin-5" ["csWindows31Latin5"],
  unreadable "hp-roman8" ["roman8", "r8", "csHPRoman8"],
  unreadable "Adobe-Standard-Encoding" ["csAdobeStandardEncoding"],
  unreadable "Ventura-US" ["csVenturaUS"],
  unreadable "Ventura-International" ["csVenturaInternational"],
  unreadable "DEC-MCS" ["dec", "csDECMCS"],
  unreadable "PC8-Danish-Norwegian" ["csPC8DanishNorwegian"],
  unreadable "PC8-Turkish" ["csPC8Turkish"],
  unreadable "IBM-Symbols" ["csIBMSymbols"],
  unreadable "IBM-Thai" ["csIBMThai"],
  unreadable "HP-Legal" ["csHPLegal"],
  unreadable "HP-Pi-font" ["csHPPiFont"],
  unreadable "HP-Math8" ["csHPMath8"],
  unreadable "Adobe-Symbol-Encoding" ["csHPPSMath"],
  unreadable "HP-DeskTop" ["csHPDesktop"],
  unreadable "Ventura-Math" ["csVenturaMath"],
  unreadable "Microsoft-Publishing" ["csMicrosoftPublishing"],
  unreadable "Windows-31J" ["csWindows31J"],
  unreadable "GB2312" ["csGB2312"],
  unreadable "IBM038" ["EBCDIC-INT", "cp038", "csIBM038"],
  unreadable "IBM273" ["CP273", "csIBM273"],
  unreadable "IBM274" ["EBCDIC-BE", "CP274", "csIBM274"],
  unreadable "IBM275" ["EBCDIC-BR", "cp275", "csIBM275"],
  unreadable "IBM277" ["EBCDIC-CP-DK", "EBCDIC-CP-NO", "csIBM277"],
  unreadable "IBM278" ["CP278", "ebcdic-cp-fi", "ebcdic-cp-se", "csIBM278"],
  unreadable "IBM280" ["CP280", "ebcdic-cp-it", "csIBM280"],
  unreadable "IBM281" ["EBCDIC-JP-E", "cp281", "csIBM281"],
  unreadable "IBM284" ["CP284", "ebcdic-cp-es", "csIBM284"],
  unreadable "IBM285" ["CP285", "ebcdic-cp-gb", "csIBM285"],
  unreadable "IBM290" ["cp290", "EBCDIC-JP-kana", "csIBM290"],
  unreadable "IBM297" ["cp297", "ebcdic-cp-fr", "csIBM297"],
  unreadable "IBM420" ["cp420", "ebcdic-cp-ar1", "csIBM420"],
  unreadable "IBM423" ["cp423", "ebcdic-cp-gr", "csIBM423"],
  unreadable "IBM424" ["cp424", "ebcdic-cp-he", "csIBM424"],
  unreadable "IBM500" ["CP500", "ebcdic-cp-be", "ebcdic-cp-ch", "csIBM500"],
  unreadable "IBM851" ["cp851", "851", "csIBM851"],
  unreadable "IBM857" ["cp857", "857", "csIBM857"],
  unreadable "IBM861" ["cp861", "861", "cp-is", "csIBM861"],
  unreadable "IBM864" ["cp864", "csIBM864"],
  unreadable "IBM868" ["CP868", "cp-ar", "csIBM868"],
  unreadable "IBM869" ["cp869", "869", "cp-gr", "csIBM869"],
  unreadable "IBM870" ["CP870", "ebcdic-cp-roece", "ebcdic-cp-yu", "csIBM870"],
  unreadable "IBM871" ["CP871", "ebcdic-cp-is", "csIBM871"],
  unreadable "IBM880" ["cp880", "EBCDIC-Cyrillic", "csIBM880"],
  unreadable "IBM891" ["cp891", "csIBM891"],
  unreadable "IBM903" ["cp903", "csIBM903"],
  unreadable "IBM904" ["cp904", "904", "csIBBM904"],
  unreadable "IBM905" ["CP905", "ebcdic-cp-tr", "csIBM905"],
  unreadable "IBM918" ["CP918", "ebcdic-cp-ar2", "csIBM918"],
  unreadable "IBM1026" ["CP1026", "csIBM1026"],
  unreadable "EBCDIC-AT-DE" ["csIBMEBCDICATDE"],
  unreadable "EBCDIC-AT-DE-A" ["csEBCDICATDEA"],
  unreadable "EBCDIC-CA-FR" ["csEBCDICCAFR"],
  unreadable "EBCDIC-DK-NO" ["csEBCDICDKNO"],
  unreadable "EBCDIC-DK-NO-A" ["csEBCDICDKNOA"],
  unreadable "EBCDIC-FI-SE" ["csEBCDICFISE"],
  unreadable "EBCDIC-FI-SE-A" ["csEBCDICFISEA"],
  unreadable "EBCDIC-FR" ["csEBCDICFR"],
  unreadable "EBCDIC-IT" ["csEBCDICIT"],
  unreadable "EBCDIC-PT" ["csEBCDICPT"],
  unreadable "EBCDIC-ES" ["csEBCDICES"],
  unreadable "EBCDIC-ES-A" ["csEBCDICESA"],
  unreadable "EBCDIC-ES-S" ["csEBCDICESS"],
  unreadable "EBCDIC-UK" ["csEBCDICUK"],
  unreadable "EBCDIC-US" ["csEBCDICUS"],
  unreadable "UNKNOWN-8BIT" ["csUnknown8BiT"],
  unreadable "MNEMONIC" ["csMnemonic"],
  unreadable "MNEM" ["csMnem"],
  unreadable "VISCII" ["csVISCII"],
  unreadable "VIQR" ["csVIQR"],
  unreadable "IBM775" ["cp775", "csPC775Baltic"],
  unreadable "IBM00924" ["CCSID00924", "CP00924", "ebcdic-Latin9--euro", "csIBM00924"],
  unreadable "IBM01141" ["CCSID01141", "CP01141", "ebcdic-de-273+euro", "csIBM01141"],
  unreadable "IBM01142" ["CCSID01142", "CP01142", "ebcdic-dk-277+euro", "ebcdic-no-277+euro",
    "csIBM01142"],
  unreadable "IBM01143" ["CCSID01143", "CP01143", "ebcdic-fi-278+euro", "ebcdic-se-278+euro",
    "csIBM01143"],
  unreadable "IBM01144" ["CCSID01144", "CP01144", "ebcdic-it-280+euro", "csIBM01144"],
  unreadable "IBM01145" ["CCSID01145", "CP01145", "ebcdic-es-284+euro", "csIBM01145"],
  unreadable "IBM01146" ["CCSID01146", "CP01146", "ebcdic-gb-285+euro", "csIBM01146"],
  unreadable "IBM01147" ["CCSID01147", "CP01147", "ebcdic-fr-297+euro", "csIBM01147"],
  unreadable "IBM01148" ["CCSID01148", "CP01148", "ebcdic-international-500+euro", "csIBM01148"],
  unreadable "IBM01149" ["CCSID01149", "CP01149", "ebcdic-is-871+euro", "csIBM01149"],
  unreadable "Big5-HKSCS" ["csBig5HKSCS"],
  unreadable "PTCP154" ["csPTCP154", "PT154", "CP154", "Cyrillic-Asian"],
  unreadable "Amiga-1251" ["Ami1251", "Amiga1251", "Ami-1251", "csAmiga1251"],
  unreadable "KOI7-switched" ["csKOI7switched"],
  unreadable "BRF" ["csBRF"],
  unreadable "TSCII" ["csTSCII"],
  unreadable "CP51932" ["csCP51932"],
  unreadable "TIS-620" ["csTIS620", "ISO-8859-11"],
  unreadable "CP50220" ["csCP50220"]]

/-- The set with a name, given in lower case. -/
def registered? (key : Bytes) : Option Registered :=
  (readables ++ unreadables).find? fun r => r.answersTo key

end Cascade.Charset
