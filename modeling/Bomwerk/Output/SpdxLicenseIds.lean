import Bomwerk.Core.Text

/-!
# The SPDX License List

`output/spdx_license_ids.cpp`: the short identifiers of the vendored list, found
by any spelling of their letters.
-/

namespace Bomwerk.Output

open Bomwerk.Core

def spdxLicenseIdsByLowercaseId : List (String × String) := [
  ("0bsd", "0BSD"), ("3d-slicer-1.0", "3D-Slicer-1.0"), ("aal", "AAL"),
  ("abstyles", "Abstyles"), ("adacore-doc", "AdaCore-doc"),
  ("adobe-2006", "Adobe-2006"),
  ("adobe-display-postscript", "Adobe-Display-PostScript"),
  ("adobe-glyph", "Adobe-Glyph"), ("adobe-utopia", "Adobe-Utopia"),
  ("adsl", "ADSL"),
  ("advanced-cryptics-dictionary", "Advanced-Cryptics-Dictionary"),
  ("afl-1.1", "AFL-1.1"), ("afl-1.2", "AFL-1.2"), ("afl-2.0", "AFL-2.0"),
  ("afl-2.1", "AFL-2.1"), ("afl-3.0", "AFL-3.0"), ("afmparse", "Afmparse"),
  ("agpl-1.0", "AGPL-1.0"), ("agpl-1.0-only", "AGPL-1.0-only"),
  ("agpl-1.0-or-later", "AGPL-1.0-or-later"), ("agpl-3.0", "AGPL-3.0"),
  ("agpl-3.0-only", "AGPL-3.0-only"),
  ("agpl-3.0-or-later", "AGPL-3.0-or-later"), ("aladdin", "Aladdin"),
  ("alglib-documentation", "ALGLIB-Documentation"),
  ("amd-newlib", "AMD-newlib"), ("amdplpa", "AMDPLPA"), ("aml", "AML"),
  ("aml-glslang", "AML-glslang"), ("ampas", "AMPAS"), ("antlr-pd", "ANTLR-PD"),
  ("antlr-pd-fallback", "ANTLR-PD-fallback"), ("any-osi", "any-OSI"),
  ("any-osi-perl-modules", "any-OSI-perl-modules"),
  ("apache-1.0", "Apache-1.0"), ("apache-1.1", "Apache-1.1"),
  ("apache-2.0", "Apache-2.0"), ("apafml", "APAFML"), ("apl-1.0", "APL-1.0"),
  ("app-s2p", "App-s2p"), ("apsl-1.0", "APSL-1.0"), ("apsl-1.1", "APSL-1.1"),
  ("apsl-1.2", "APSL-1.2"), ("apsl-2.0", "APSL-2.0"),
  ("arphic-1999", "Arphic-1999"), ("artistic-1.0", "Artistic-1.0"),
  ("artistic-1.0-cl8", "Artistic-1.0-cl8"),
  ("artistic-1.0-perl", "Artistic-1.0-Perl"), ("artistic-2.0", "Artistic-2.0"),
  ("artistic-dist", "Artistic-dist"), ("aspell-ru", "Aspell-RU"),
  ("aswf-digital-assets-1.0", "ASWF-Digital-Assets-1.0"),
  ("aswf-digital-assets-1.1", "ASWF-Digital-Assets-1.1"),
  ("baekmuk", "Baekmuk"), ("bahyph", "Bahyph"), ("barr", "Barr"),
  ("bcrypt-solar-designer", "bcrypt-Solar-Designer"), ("beerware", "Beerware"),
  ("bitstream-charter", "Bitstream-Charter"),
  ("bitstream-vera", "Bitstream-Vera"), ("bittorrent-1.0", "BitTorrent-1.0"),
  ("bittorrent-1.1", "BitTorrent-1.1"), ("blessing", "blessing"),
  ("blueoak-1.0.0", "BlueOak-1.0.0"), ("boehm-gc", "Boehm-GC"),
  ("boehm-gc-without-fee", "Boehm-GC-without-fee"), ("bola-1.1", "BOLA-1.1"),
  ("borceux", "Borceux"), ("brian-gladman-2-clause", "Brian-Gladman-2-Clause"),
  ("brian-gladman-3-clause", "Brian-Gladman-3-Clause"),
  ("bsd-1-clause", "BSD-1-Clause"), ("bsd-2-clause", "BSD-2-Clause"),
  ("bsd-2-clause-darwin", "BSD-2-Clause-Darwin"),
  ("bsd-2-clause-first-lines", "BSD-2-Clause-first-lines"),
  ("bsd-2-clause-freebsd", "BSD-2-Clause-FreeBSD"),
  ("bsd-2-clause-netbsd", "BSD-2-Clause-NetBSD"),
  ("bsd-2-clause-patent", "BSD-2-Clause-Patent"),
  ("bsd-2-clause-pkgconf-disclaimer", "BSD-2-Clause-pkgconf-disclaimer"),
  ("bsd-2-clause-views", "BSD-2-Clause-Views"),
  ("bsd-3-clause", "BSD-3-Clause"),
  ("bsd-3-clause-acpica", "BSD-3-Clause-acpica"),
  ("bsd-3-clause-attribution", "BSD-3-Clause-Attribution"),
  ("bsd-3-clause-clear", "BSD-3-Clause-Clear"),
  ("bsd-3-clause-flex", "BSD-3-Clause-flex"),
  ("bsd-3-clause-hp", "BSD-3-Clause-HP"),
  ("bsd-3-clause-lbnl", "BSD-3-Clause-LBNL"),
  ("bsd-3-clause-modification", "BSD-3-Clause-Modification"),
  ("bsd-3-clause-no-military-license", "BSD-3-Clause-No-Military-License"),
  ("bsd-3-clause-no-nuclear-license", "BSD-3-Clause-No-Nuclear-License"),
  ("bsd-3-clause-no-nuclear-license-2014", "BSD-3-Clause-No-Nuclear-License-2014"),
  ("bsd-3-clause-no-nuclear-warranty", "BSD-3-Clause-No-Nuclear-Warranty"),
  ("bsd-3-clause-open-mpi", "BSD-3-Clause-Open-MPI"),
  ("bsd-3-clause-sun", "BSD-3-Clause-Sun"),
  ("bsd-3-clause-tso", "BSD-3-Clause-Tso"), ("bsd-4-clause", "BSD-4-Clause"),
  ("bsd-4-clause-shortened", "BSD-4-Clause-Shortened"),
  ("bsd-4-clause-uc", "BSD-4-Clause-UC"), ("bsd-4.3reno", "BSD-4.3RENO"),
  ("bsd-4.3tahoe", "BSD-4.3TAHOE"),
  ("bsd-advertising-acknowledgement", "BSD-Advertising-Acknowledgement"),
  ("bsd-attribution-hpnd-disclaimer", "BSD-Attribution-HPND-disclaimer"),
  ("bsd-inferno-nettverk", "BSD-Inferno-Nettverk"),
  ("bsd-mark-modifications", "BSD-Mark-Modifications"),
  ("bsd-protection", "BSD-Protection"),
  ("bsd-source-beginning-file", "BSD-Source-beginning-file"),
  ("bsd-source-code", "BSD-Source-Code"), ("bsd-systemics", "BSD-Systemics"),
  ("bsd-systemics-w3works", "BSD-Systemics-W3Works"), ("bsl-1.0", "BSL-1.0"),
  ("buddy", "Buddy"), ("busl-1.1", "BUSL-1.1"), ("bzip2-1.0.5", "bzip2-1.0.5"),
  ("bzip2-1.0.6", "bzip2-1.0.6"), ("c-uda-1.0", "C-UDA-1.0"),
  ("cal-1.0", "CAL-1.0"),
  ("cal-1.0-combined-work-exception", "CAL-1.0-Combined-Work-Exception"),
  ("caldera", "Caldera"), ("caldera-no-preamble", "Caldera-no-preamble"),
  ("capec-tou", "CAPEC-tou"), ("catharon", "Catharon"),
  ("catosl-1.1", "CATOSL-1.1"), ("cc-by-1.0", "CC-BY-1.0"),
  ("cc-by-2.0", "CC-BY-2.0"), ("cc-by-2.5", "CC-BY-2.5"),
  ("cc-by-2.5-au", "CC-BY-2.5-AU"), ("cc-by-3.0", "CC-BY-3.0"),
  ("cc-by-3.0-at", "CC-BY-3.0-AT"), ("cc-by-3.0-au", "CC-BY-3.0-AU"),
  ("cc-by-3.0-de", "CC-BY-3.0-DE"), ("cc-by-3.0-igo", "CC-BY-3.0-IGO"),
  ("cc-by-3.0-nl", "CC-BY-3.0-NL"), ("cc-by-3.0-us", "CC-BY-3.0-US"),
  ("cc-by-4.0", "CC-BY-4.0"), ("cc-by-nc-1.0", "CC-BY-NC-1.0"),
  ("cc-by-nc-2.0", "CC-BY-NC-2.0"), ("cc-by-nc-2.5", "CC-BY-NC-2.5"),
  ("cc-by-nc-3.0", "CC-BY-NC-3.0"), ("cc-by-nc-3.0-de", "CC-BY-NC-3.0-DE"),
  ("cc-by-nc-4.0", "CC-BY-NC-4.0"), ("cc-by-nc-nd-1.0", "CC-BY-NC-ND-1.0"),
  ("cc-by-nc-nd-2.0", "CC-BY-NC-ND-2.0"),
  ("cc-by-nc-nd-2.5", "CC-BY-NC-ND-2.5"),
  ("cc-by-nc-nd-3.0", "CC-BY-NC-ND-3.0"),
  ("cc-by-nc-nd-3.0-de", "CC-BY-NC-ND-3.0-DE"),
  ("cc-by-nc-nd-3.0-igo", "CC-BY-NC-ND-3.0-IGO"),
  ("cc-by-nc-nd-4.0", "CC-BY-NC-ND-4.0"),
  ("cc-by-nc-sa-1.0", "CC-BY-NC-SA-1.0"),
  ("cc-by-nc-sa-2.0", "CC-BY-NC-SA-2.0"),
  ("cc-by-nc-sa-2.0-de", "CC-BY-NC-SA-2.0-DE"),
  ("cc-by-nc-sa-2.0-fr", "CC-BY-NC-SA-2.0-FR"),
  ("cc-by-nc-sa-2.0-uk", "CC-BY-NC-SA-2.0-UK"),
  ("cc-by-nc-sa-2.5", "CC-BY-NC-SA-2.5"),
  ("cc-by-nc-sa-3.0", "CC-BY-NC-SA-3.0"),
  ("cc-by-nc-sa-3.0-de", "CC-BY-NC-SA-3.0-DE"),
  ("cc-by-nc-sa-3.0-igo", "CC-BY-NC-SA-3.0-IGO"),
  ("cc-by-nc-sa-4.0", "CC-BY-NC-SA-4.0"), ("cc-by-nd-1.0", "CC-BY-ND-1.0"),
  ("cc-by-nd-2.0", "CC-BY-ND-2.0"), ("cc-by-nd-2.5", "CC-BY-ND-2.5"),
  ("cc-by-nd-3.0", "CC-BY-ND-3.0"), ("cc-by-nd-3.0-de", "CC-BY-ND-3.0-DE"),
  ("cc-by-nd-4.0", "CC-BY-ND-4.0"), ("cc-by-sa-1.0", "CC-BY-SA-1.0"),
  ("cc-by-sa-2.0", "CC-BY-SA-2.0"), ("cc-by-sa-2.0-uk", "CC-BY-SA-2.0-UK"),
  ("cc-by-sa-2.1-jp", "CC-BY-SA-2.1-JP"), ("cc-by-sa-2.5", "CC-BY-SA-2.5"),
  ("cc-by-sa-3.0", "CC-BY-SA-3.0"), ("cc-by-sa-3.0-at", "CC-BY-SA-3.0-AT"),
  ("cc-by-sa-3.0-de", "CC-BY-SA-3.0-DE"),
  ("cc-by-sa-3.0-igo", "CC-BY-SA-3.0-IGO"), ("cc-by-sa-4.0", "CC-BY-SA-4.0"),
  ("cc-pddc", "CC-PDDC"), ("cc-pdm-1.0", "CC-PDM-1.0"),
  ("cc-sa-1.0", "CC-SA-1.0"), ("cc0-1.0", "CC0-1.0"), ("cddl-1.0", "CDDL-1.0"),
  ("cddl-1.1", "CDDL-1.1"), ("cdl-1.0", "CDL-1.0"),
  ("cdla-permissive-1.0", "CDLA-Permissive-1.0"),
  ("cdla-permissive-2.0", "CDLA-Permissive-2.0"),
  ("cdla-sharing-1.0", "CDLA-Sharing-1.0"), ("cecill-1.0", "CECILL-1.0"),
  ("cecill-1.1", "CECILL-1.1"), ("cecill-2.0", "CECILL-2.0"),
  ("cecill-2.1", "CECILL-2.1"), ("cecill-b", "CECILL-B"),
  ("cecill-c", "CECILL-C"), ("cern-ohl-1.1", "CERN-OHL-1.1"),
  ("cern-ohl-1.2", "CERN-OHL-1.2"), ("cern-ohl-p-2.0", "CERN-OHL-P-2.0"),
  ("cern-ohl-s-2.0", "CERN-OHL-S-2.0"), ("cern-ohl-w-2.0", "CERN-OHL-W-2.0"),
  ("cfitsio", "CFITSIO"), ("check-cvs", "check-cvs"), ("checkmk", "checkmk"),
  ("clartistic", "ClArtistic"), ("clips", "Clips"), ("cmu-mach", "CMU-Mach"),
  ("cmu-mach-nodoc", "CMU-Mach-nodoc"), ("cnri-jython", "CNRI-Jython"),
  ("cnri-python", "CNRI-Python"),
  ("cnri-python-gpl-compatible", "CNRI-Python-GPL-Compatible"),
  ("coil-1.0", "COIL-1.0"), ("community-spec-1.0", "Community-Spec-1.0"),
  ("condor-1.1", "Condor-1.1"), ("copyleft-next-0.3.0", "copyleft-next-0.3.0"),
  ("copyleft-next-0.3.1", "copyleft-next-0.3.1"),
  ("cornell-lossless-jpeg", "Cornell-Lossless-JPEG"), ("cpal-1.0", "CPAL-1.0"),
  ("cpl-1.0", "CPL-1.0"), ("cpol-1.02", "CPOL-1.02"), ("cronyx", "Cronyx"),
  ("crossword", "Crossword"), ("cryptoswift", "CryptoSwift"),
  ("crystalstacker", "CrystalStacker"), ("cua-opl-1.0", "CUA-OPL-1.0"),
  ("cube", "Cube"), ("curl", "curl"), ("cve-tou", "cve-tou"),
  ("d-fsl-1.0", "D-FSL-1.0"), ("dec-3-clause", "DEC-3-Clause"),
  ("diffmark", "diffmark"), ("dl-de-by-2.0", "DL-DE-BY-2.0"),
  ("dl-de-zero-2.0", "DL-DE-ZERO-2.0"), ("doc", "DOC"),
  ("docbook-dtd", "DocBook-DTD"), ("docbook-schema", "DocBook-Schema"),
  ("docbook-stylesheet", "DocBook-Stylesheet"), ("docbook-xml", "DocBook-XML"),
  ("dotseqn", "Dotseqn"), ("drl-1.0", "DRL-1.0"), ("drl-1.1", "DRL-1.1"),
  ("dsdp", "DSDP"), ("dtoa", "dtoa"), ("dvipdfm", "dvipdfm"),
  ("ecl-1.0", "ECL-1.0"), ("ecl-2.0", "ECL-2.0"), ("ecos-2.0", "eCos-2.0"),
  ("efl-1.0", "EFL-1.0"), ("efl-2.0", "EFL-2.0"), ("egenix", "eGenix"),
  ("elastic-2.0", "Elastic-2.0"), ("entessa", "Entessa"), ("epics", "EPICS"),
  ("epl-1.0", "EPL-1.0"), ("epl-2.0", "EPL-2.0"), ("erlpl-1.1", "ErlPL-1.1"),
  ("esa-pl-permissive-2.4", "ESA-PL-permissive-2.4"),
  ("esa-pl-strong-copyleft-2.4", "ESA-PL-strong-copyleft-2.4"),
  ("esa-pl-weak-copyleft-2.4", "ESA-PL-weak-copyleft-2.4"),
  ("etalab-2.0", "etalab-2.0"), ("eudatagrid", "EUDatagrid"),
  ("eupl-1.0", "EUPL-1.0"), ("eupl-1.1", "EUPL-1.1"), ("eupl-1.2", "EUPL-1.2"),
  ("eurosym", "Eurosym"), ("fair", "Fair"), ("fbm", "FBM"),
  ("fdk-aac", "FDK-AAC"), ("ferguson-twofish", "Ferguson-Twofish"),
  ("frameworx-1.0", "Frameworx-1.0"), ("freebsd-doc", "FreeBSD-DOC"),
  ("freeimage", "FreeImage"), ("fsfap", "FSFAP"),
  ("fsfap-no-warranty-disclaimer", "FSFAP-no-warranty-disclaimer"),
  ("fsful", "FSFUL"), ("fsfullr", "FSFULLR"), ("fsfullrsd", "FSFULLRSD"),
  ("fsfullrwd", "FSFULLRWD"), ("fsl-1.1-alv2", "FSL-1.1-ALv2"),
  ("fsl-1.1-mit", "FSL-1.1-MIT"), ("ftl", "FTL"), ("furuseth", "Furuseth"),
  ("fwlw", "fwlw"), ("game-programming-gems", "Game-Programming-Gems"),
  ("gcr-docs", "GCR-docs"), ("gd", "GD"), ("generic-xts", "generic-xts"),
  ("gfdl-1.1", "GFDL-1.1"),
  ("gfdl-1.1-invariants-only", "GFDL-1.1-invariants-only"),
  ("gfdl-1.1-invariants-or-later", "GFDL-1.1-invariants-or-later"),
  ("gfdl-1.1-no-invariants-only", "GFDL-1.1-no-invariants-only"),
  ("gfdl-1.1-no-invariants-or-later", "GFDL-1.1-no-invariants-or-later"),
  ("gfdl-1.1-only", "GFDL-1.1-only"),
  ("gfdl-1.1-or-later", "GFDL-1.1-or-later"), ("gfdl-1.2", "GFDL-1.2"),
  ("gfdl-1.2-invariants-only", "GFDL-1.2-invariants-only"),
  ("gfdl-1.2-invariants-or-later", "GFDL-1.2-invariants-or-later"),
  ("gfdl-1.2-no-invariants-only", "GFDL-1.2-no-invariants-only"),
  ("gfdl-1.2-no-invariants-or-later", "GFDL-1.2-no-invariants-or-later"),
  ("gfdl-1.2-only", "GFDL-1.2-only"),
  ("gfdl-1.2-or-later", "GFDL-1.2-or-later"), ("gfdl-1.3", "GFDL-1.3"),
  ("gfdl-1.3-invariants-only", "GFDL-1.3-invariants-only"),
  ("gfdl-1.3-invariants-or-later", "GFDL-1.3-invariants-or-later"),
  ("gfdl-1.3-no-invariants-only", "GFDL-1.3-no-invariants-only"),
  ("gfdl-1.3-no-invariants-or-later", "GFDL-1.3-no-invariants-or-later"),
  ("gfdl-1.3-only", "GFDL-1.3-only"),
  ("gfdl-1.3-or-later", "GFDL-1.3-or-later"), ("giftware", "Giftware"),
  ("gl2ps", "GL2PS"), ("glide", "Glide"), ("glulxe", "Glulxe"),
  ("glwtpl", "GLWTPL"), ("gnuplot", "gnuplot"), ("gpl-1.0", "GPL-1.0"),
  ("gpl-1.0+", "GPL-1.0+"), ("gpl-1.0-only", "GPL-1.0-only"),
  ("gpl-1.0-or-later", "GPL-1.0-or-later"), ("gpl-2.0", "GPL-2.0"),
  ("gpl-2.0+", "GPL-2.0+"), ("gpl-2.0-only", "GPL-2.0-only"),
  ("gpl-2.0-or-later", "GPL-2.0-or-later"),
  ("gpl-2.0-with-autoconf-exception", "GPL-2.0-with-autoconf-exception"),
  ("gpl-2.0-with-bison-exception", "GPL-2.0-with-bison-exception"),
  ("gpl-2.0-with-classpath-exception", "GPL-2.0-with-classpath-exception"),
  ("gpl-2.0-with-font-exception", "GPL-2.0-with-font-exception"),
  ("gpl-2.0-with-gcc-exception", "GPL-2.0-with-GCC-exception"),
  ("gpl-3.0", "GPL-3.0"), ("gpl-3.0+", "GPL-3.0+"),
  ("gpl-3.0-only", "GPL-3.0-only"), ("gpl-3.0-or-later", "GPL-3.0-or-later"),
  ("gpl-3.0-with-autoconf-exception", "GPL-3.0-with-autoconf-exception"),
  ("gpl-3.0-with-gcc-exception", "GPL-3.0-with-GCC-exception"),
  ("graphics-gems", "Graphics-Gems"), ("gsoap-1.3b", "gSOAP-1.3b"),
  ("gtkbook", "gtkbook"), ("gutmann", "Gutmann"),
  ("haskellreport", "HaskellReport"), ("hdf5", "HDF5"), ("hdparm", "hdparm"),
  ("hidapi", "HIDAPI"), ("hippocratic-2.1", "Hippocratic-2.1"),
  ("hp-1986", "HP-1986"), ("hp-1989", "HP-1989"), ("hpnd", "HPND"),
  ("hpnd-dec", "HPND-DEC"), ("hpnd-doc", "HPND-doc"),
  ("hpnd-doc-sell", "HPND-doc-sell"), ("hpnd-export-us", "HPND-export-US"),
  ("hpnd-export-us-acknowledgement", "HPND-export-US-acknowledgement"),
  ("hpnd-export-us-modify", "HPND-export-US-modify"),
  ("hpnd-export2-us", "HPND-export2-US"),
  ("hpnd-fenneberg-livingston", "HPND-Fenneberg-Livingston"),
  ("hpnd-inria-imag", "HPND-INRIA-IMAG"), ("hpnd-intel", "HPND-Intel"),
  ("hpnd-kevlin-henney", "HPND-Kevlin-Henney"),
  ("hpnd-markus-kuhn", "HPND-Markus-Kuhn"),
  ("hpnd-merchantability-variant", "HPND-merchantability-variant"),
  ("hpnd-mit-disclaimer", "HPND-MIT-disclaimer"),
  ("hpnd-netrek", "HPND-Netrek"), ("hpnd-pbmplus", "HPND-Pbmplus"),
  ("hpnd-sell-mit-disclaimer-xserver", "HPND-sell-MIT-disclaimer-xserver"),
  ("hpnd-sell-regexpr", "HPND-sell-regexpr"),
  ("hpnd-sell-variant", "HPND-sell-variant"),
  ("hpnd-sell-variant-critical-systems", "HPND-sell-variant-critical-systems"),
  ("hpnd-sell-variant-mit-disclaimer", "HPND-sell-variant-MIT-disclaimer"),
  ("hpnd-sell-variant-mit-disclaimer-rev", "HPND-sell-variant-MIT-disclaimer-rev"),
  ("hpnd-smc", "HPND-SMC"), ("hpnd-uc", "HPND-UC"),
  ("hpnd-uc-export-us", "HPND-UC-export-US"), ("htmltidy", "HTMLTIDY"),
  ("hyphen-bulgarian", "hyphen-bulgarian"), ("ibm-pibs", "IBM-pibs"),
  ("icu", "ICU"), ("iec-code-components-eula", "IEC-Code-Components-EULA"),
  ("ijg", "IJG"), ("ijg-short", "IJG-short"), ("imagemagick", "ImageMagick"),
  ("imatix", "iMatix"), ("imlib2", "Imlib2"), ("info-zip", "Info-ZIP"),
  ("inner-net-2.0", "Inner-Net-2.0"), ("innosetup", "InnoSetup"),
  ("intel", "Intel"), ("intel-acpi", "Intel-ACPI"),
  ("interbase-1.0", "Interbase-1.0"), ("ipa", "IPA"), ("ipl-1.0", "IPL-1.0"),
  ("isc", "ISC"), ("isc-veillard", "ISC-Veillard"),
  ("iso-permission", "ISO-permission"), ("jam", "Jam"),
  ("jasper-2.0", "JasPer-2.0"), ("jove", "jove"), ("jpl-image", "JPL-image"),
  ("jpnic", "JPNIC"), ("json", "JSON"), ("kastrup", "Kastrup"),
  ("kazlib", "Kazlib"), ("knuth-ctan", "Knuth-CTAN"), ("lal-1.2", "LAL-1.2"),
  ("lal-1.3", "LAL-1.3"), ("latex2e", "Latex2e"),
  ("latex2e-translated-notice", "Latex2e-translated-notice"),
  ("leptonica", "Leptonica"), ("lgpl-2.0", "LGPL-2.0"),
  ("lgpl-2.0+", "LGPL-2.0+"), ("lgpl-2.0-only", "LGPL-2.0-only"),
  ("lgpl-2.0-or-later", "LGPL-2.0-or-later"), ("lgpl-2.1", "LGPL-2.1"),
  ("lgpl-2.1+", "LGPL-2.1+"), ("lgpl-2.1-only", "LGPL-2.1-only"),
  ("lgpl-2.1-or-later", "LGPL-2.1-or-later"), ("lgpl-3.0", "LGPL-3.0"),
  ("lgpl-3.0+", "LGPL-3.0+"), ("lgpl-3.0-only", "LGPL-3.0-only"),
  ("lgpl-3.0-or-later", "LGPL-3.0-or-later"), ("lgpllr", "LGPLLR"),
  ("libpng", "Libpng"), ("libpng-1.6.35", "libpng-1.6.35"),
  ("libpng-2.0", "libpng-2.0"), ("libselinux-1.0", "libselinux-1.0"),
  ("libtiff", "libtiff"), ("libutil-david-nugent", "libutil-David-Nugent"),
  ("liliq-p-1.1", "LiLiQ-P-1.1"), ("liliq-r-1.1", "LiLiQ-R-1.1"),
  ("liliq-rplus-1.1", "LiLiQ-Rplus-1.1"),
  ("linux-man-pages-1-para", "Linux-man-pages-1-para"),
  ("linux-man-pages-copyleft", "Linux-man-pages-copyleft"),
  ("linux-man-pages-copyleft-2-para", "Linux-man-pages-copyleft-2-para"),
  ("linux-man-pages-copyleft-var", "Linux-man-pages-copyleft-var"),
  ("linux-openib", "Linux-OpenIB"), ("loop", "LOOP"),
  ("lpd-document", "LPD-document"), ("lpl-1.0", "LPL-1.0"),
  ("lpl-1.02", "LPL-1.02"), ("lppl-1.0", "LPPL-1.0"), ("lppl-1.1", "LPPL-1.1"),
  ("lppl-1.2", "LPPL-1.2"), ("lppl-1.3a", "LPPL-1.3a"),
  ("lppl-1.3c", "LPPL-1.3c"), ("lsof", "lsof"),
  ("lucida-bitmap-fonts", "Lucida-Bitmap-Fonts"),
  ("lzma-sdk-9.11-to-9.20", "LZMA-SDK-9.11-to-9.20"),
  ("lzma-sdk-9.22", "LZMA-SDK-9.22"),
  ("mackerras-3-clause", "Mackerras-3-Clause"),
  ("mackerras-3-clause-acknowledgment", "Mackerras-3-Clause-acknowledgment"),
  ("magaz", "magaz"), ("mailprio", "mailprio"), ("makeindex", "MakeIndex"),
  ("man2html", "man2html"), ("martin-birgmeier", "Martin-Birgmeier"),
  ("mcphee-slideshow", "McPhee-slideshow"), ("metamail", "metamail"),
  ("minpack", "Minpack"), ("mips", "MIPS"), ("miros", "MirOS"), ("mit", "MIT"),
  ("mit-0", "MIT-0"), ("mit-advertising", "MIT-advertising"),
  ("mit-click", "MIT-Click"), ("mit-cmu", "MIT-CMU"), ("mit-enna", "MIT-enna"),
  ("mit-feh", "MIT-feh"), ("mit-festival", "MIT-Festival"),
  ("mit-khronos-old", "MIT-Khronos-old"),
  ("mit-modern-variant", "MIT-Modern-Variant"),
  ("mit-open-group", "MIT-open-group"), ("mit-stk", "MIT-STK"),
  ("mit-testregex", "MIT-testregex"), ("mit-wu", "MIT-Wu"),
  ("mitnfa", "MITNFA"), ("mmixware", "MMIXware"), ("mmpl-1.0.1", "MMPL-1.0.1"),
  ("motosoto", "Motosoto"), ("mpeg-ssg", "MPEG-SSG"),
  ("mpi-permissive", "mpi-permissive"), ("mpich2", "mpich2"),
  ("mpl-1.0", "MPL-1.0"), ("mpl-1.1", "MPL-1.1"), ("mpl-2.0", "MPL-2.0"),
  ("mpl-2.0-no-copyleft-exception", "MPL-2.0-no-copyleft-exception"),
  ("mplus", "mplus"), ("ms-lpl", "MS-LPL"), ("ms-pl", "MS-PL"),
  ("ms-rl", "MS-RL"), ("mtll", "MTLL"), ("mulanpsl-1.0", "MulanPSL-1.0"),
  ("mulanpsl-2.0", "MulanPSL-2.0"), ("multics", "Multics"), ("mup", "Mup"),
  ("naist-2003", "NAIST-2003"), ("nasa-1.3", "NASA-1.3"), ("naumen", "Naumen"),
  ("nbpl-1.0", "NBPL-1.0"), ("ncbi-pd", "NCBI-PD"),
  ("ncgl-uk-2.0", "NCGL-UK-2.0"), ("ncl", "NCL"), ("ncsa", "NCSA"),
  ("net-snmp", "Net-SNMP"), ("netcdf", "NetCDF"), ("newsletr", "Newsletr"),
  ("ngpl", "NGPL"), ("ngrep", "ngrep"), ("nicta-1.0", "NICTA-1.0"),
  ("nist-pd", "NIST-PD"), ("nist-pd-fallback", "NIST-PD-fallback"),
  ("nist-pd-tnt", "NIST-PD-TNT"), ("nist-software", "NIST-Software"),
  ("nlod-1.0", "NLOD-1.0"), ("nlod-2.0", "NLOD-2.0"), ("nlpl", "NLPL"),
  ("nokia", "Nokia"), ("nosl", "NOSL"), ("noweb", "Noweb"),
  ("npl-1.0", "NPL-1.0"), ("npl-1.1", "NPL-1.1"), ("nposl-3.0", "NPOSL-3.0"),
  ("nrl", "NRL"), ("ntia-pd", "NTIA-PD"), ("ntp", "NTP"), ("ntp-0", "NTP-0"),
  ("nunit", "Nunit"), ("o-uda-1.0", "O-UDA-1.0"), ("oar", "OAR"),
  ("occt-pl", "OCCT-PL"), ("oclc-2.0", "OCLC-2.0"), ("odbl-1.0", "ODbL-1.0"),
  ("odc-by-1.0", "ODC-By-1.0"), ("offis", "OFFIS"), ("ofl-1.0", "OFL-1.0"),
  ("ofl-1.0-no-rfn", "OFL-1.0-no-RFN"), ("ofl-1.0-rfn", "OFL-1.0-RFN"),
  ("ofl-1.1", "OFL-1.1"), ("ofl-1.1-no-rfn", "OFL-1.1-no-RFN"),
  ("ofl-1.1-rfn", "OFL-1.1-RFN"), ("ogc-1.0", "OGC-1.0"),
  ("ogdl-taiwan-1.0", "OGDL-Taiwan-1.0"), ("ogl-canada-2.0", "OGL-Canada-2.0"),
  ("ogl-uk-1.0", "OGL-UK-1.0"), ("ogl-uk-2.0", "OGL-UK-2.0"),
  ("ogl-uk-3.0", "OGL-UK-3.0"), ("ogtsl", "OGTSL"), ("oldap-1.1", "OLDAP-1.1"),
  ("oldap-1.2", "OLDAP-1.2"), ("oldap-1.3", "OLDAP-1.3"),
  ("oldap-1.4", "OLDAP-1.4"), ("oldap-2.0", "OLDAP-2.0"),
  ("oldap-2.0.1", "OLDAP-2.0.1"), ("oldap-2.1", "OLDAP-2.1"),
  ("oldap-2.2", "OLDAP-2.2"), ("oldap-2.2.1", "OLDAP-2.2.1"),
  ("oldap-2.2.2", "OLDAP-2.2.2"), ("oldap-2.3", "OLDAP-2.3"),
  ("oldap-2.4", "OLDAP-2.4"), ("oldap-2.5", "OLDAP-2.5"),
  ("oldap-2.6", "OLDAP-2.6"), ("oldap-2.7", "OLDAP-2.7"),
  ("oldap-2.8", "OLDAP-2.8"), ("olfl-1.3", "OLFL-1.3"), ("oml", "OML"),
  ("openmdw-1.0", "OpenMDW-1.0"), ("openpbs-2.3", "OpenPBS-2.3"),
  ("openssl", "OpenSSL"), ("openssl-standalone", "OpenSSL-standalone"),
  ("openvision", "OpenVision"), ("opl-1.0", "OPL-1.0"),
  ("opl-uk-3.0", "OPL-UK-3.0"), ("opubl-1.0", "OPUBL-1.0"),
  ("osc-1.0", "OSC-1.0"), ("oset-pl-2.1", "OSET-PL-2.1"),
  ("osl-1.0", "OSL-1.0"), ("osl-1.1", "OSL-1.1"), ("osl-2.0", "OSL-2.0"),
  ("osl-2.1", "OSL-2.1"), ("osl-3.0", "OSL-3.0"), ("ossp", "OSSP"),
  ("padl", "PADL"), ("paratype-free-font-1.3", "ParaType-Free-Font-1.3"),
  ("parity-6.0.0", "Parity-6.0.0"), ("parity-7.0.0", "Parity-7.0.0"),
  ("pddl-1.0", "PDDL-1.0"), ("php-3.0", "PHP-3.0"), ("php-3.01", "PHP-3.01"),
  ("pixar", "Pixar"), ("pkgconf", "pkgconf"), ("plexus", "Plexus"),
  ("pnmstitch", "pnmstitch"),
  ("polyform-noncommercial-1.0.0", "PolyForm-Noncommercial-1.0.0"),
  ("polyform-small-business-1.0.0", "PolyForm-Small-Business-1.0.0"),
  ("postgresql", "PostgreSQL"), ("ppl", "PPL"), ("psf-2.0", "PSF-2.0"),
  ("psfrag", "psfrag"), ("psutils", "psutils"), ("python-2.0", "Python-2.0"),
  ("python-2.0.1", "Python-2.0.1"), ("python-ldap", "python-ldap"),
  ("qhull", "Qhull"), ("qpl-1.0", "QPL-1.0"),
  ("qpl-1.0-inria-2004", "QPL-1.0-INRIA-2004"), ("radvd", "radvd"),
  ("rdisc", "Rdisc"), ("rhecos-1.1", "RHeCos-1.1"), ("rpl-1.1", "RPL-1.1"),
  ("rpl-1.5", "RPL-1.5"), ("rpsl-1.0", "RPSL-1.0"), ("rsa-md", "RSA-MD"),
  ("rscpl", "RSCPL"), ("ruby", "Ruby"), ("ruby-pty", "Ruby-pty"),
  ("sax-pd", "SAX-PD"), ("sax-pd-2.0", "SAX-PD-2.0"), ("saxpath", "Saxpath"),
  ("scea", "SCEA"), ("schemereport", "SchemeReport"), ("sendmail", "Sendmail"),
  ("sendmail-8.23", "Sendmail-8.23"),
  ("sendmail-open-source-1.1", "Sendmail-Open-Source-1.1"),
  ("sgi-b-1.0", "SGI-B-1.0"), ("sgi-b-1.1", "SGI-B-1.1"),
  ("sgi-b-2.0", "SGI-B-2.0"), ("sgi-opengl", "SGI-OpenGL"),
  ("sgmlug-pm", "SGMLUG-PM"), ("sgp4", "SGP4"), ("shl-0.5", "SHL-0.5"),
  ("shl-0.51", "SHL-0.51"), ("simpl-2.0", "SimPL-2.0"), ("sissl", "SISSL"),
  ("sissl-1.2", "SISSL-1.2"), ("sl", "SL"), ("sleepycat", "Sleepycat"),
  ("smail-gpl", "SMAIL-GPL"), ("smlnj", "SMLNJ"), ("smppl", "SMPPL"),
  ("snia", "SNIA"), ("snprintf", "snprintf"), ("sofa", "SOFA"),
  ("softsurfer", "softSurfer"), ("soundex", "Soundex"),
  ("spencer-86", "Spencer-86"), ("spencer-94", "Spencer-94"),
  ("spencer-99", "Spencer-99"), ("spl-1.0", "SPL-1.0"),
  ("ssh-keyscan", "ssh-keyscan"), ("ssh-openssh", "SSH-OpenSSH"),
  ("ssh-short", "SSH-short"), ("ssleay-standalone", "SSLeay-standalone"),
  ("sspl-1.0", "SSPL-1.0"), ("standardml-nj", "StandardML-NJ"),
  ("sugarcrm-1.1.3", "SugarCRM-1.1.3"), ("sul-1.0", "SUL-1.0"),
  ("sun-ppp", "Sun-PPP"), ("sun-ppp-2000", "Sun-PPP-2000"),
  ("sunpro", "SunPro"), ("swl", "SWL"), ("swrule", "swrule"),
  ("symlinks", "Symlinks"), ("tapr-ohl-1.0", "TAPR-OHL-1.0"), ("tcl", "TCL"),
  ("tcp-wrappers", "TCP-wrappers"), ("tekhvc", "TekHVC"),
  ("termreadkey", "TermReadKey"), ("tgppl-1.0", "TGPPL-1.0"),
  ("thirdeye", "ThirdEye"), ("threeparttable", "threeparttable"),
  ("tmate", "TMate"), ("torque-1.1", "TORQUE-1.1"), ("tosl", "TOSL"),
  ("tpdl", "TPDL"), ("tpl-1.0", "TPL-1.0"), ("trustedqsl", "TrustedQSL"),
  ("ttwl", "TTWL"), ("ttyp0", "TTYP0"), ("tu-berlin-1.0", "TU-Berlin-1.0"),
  ("tu-berlin-2.0", "TU-Berlin-2.0"), ("ubuntu-font-1.0", "Ubuntu-font-1.0"),
  ("ucar", "UCAR"), ("ucl-1.0", "UCL-1.0"), ("ulem", "ulem"),
  ("umich-merit", "UMich-Merit"), ("unicode-3.0", "Unicode-3.0"),
  ("unicode-dfs-2015", "Unicode-DFS-2015"),
  ("unicode-dfs-2016", "Unicode-DFS-2016"), ("unicode-tou", "Unicode-TOU"),
  ("unixcrypt", "UnixCrypt"), ("unlicense", "Unlicense"),
  ("unlicense-libtelnet", "Unlicense-libtelnet"),
  ("unlicense-libwhirlpool", "Unlicense-libwhirlpool"), ("unrar", "UnRAR"),
  ("upl-1.0", "UPL-1.0"), ("urt-rle", "URT-RLE"), ("vim", "Vim"),
  ("vixie-cron", "Vixie-Cron"), ("vostrom", "VOSTROM"), ("vsl-1.0", "VSL-1.0"),
  ("w3c", "W3C"), ("w3c-19980720", "W3C-19980720"),
  ("w3c-20150513", "W3C-20150513"), ("w3m", "w3m"),
  ("watcom-1.0", "Watcom-1.0"), ("widget-workshop", "Widget-Workshop"),
  ("wordnet", "WordNet"), ("wsuipa", "Wsuipa"), ("wtfnmfpl", "WTFNMFPL"),
  ("wtfpl", "WTFPL"), ("wwl", "wwl"), ("wxwindows", "wxWindows"),
  ("x11", "X11"),
  ("x11-distribute-modifications-variant", "X11-distribute-modifications-variant"),
  ("x11-no-permit-persons", "X11-no-permit-persons"),
  ("x11-swapped", "X11-swapped"), ("xdebug-1.03", "Xdebug-1.03"),
  ("xerox", "Xerox"), ("xfig", "Xfig"), ("xfree86-1.1", "XFree86-1.1"),
  ("xinetd", "xinetd"),
  ("xkeyboard-config-zinoviev", "xkeyboard-config-Zinoviev"),
  ("xlock", "xlock"), ("xnet", "Xnet"), ("xpp", "xpp"), ("xskat", "XSkat"),
  ("xzoom", "xzoom"), ("ypl-1.0", "YPL-1.0"), ("ypl-1.1", "YPL-1.1"),
  ("zed", "Zed"), ("zeeff", "Zeeff"), ("zend-2.0", "Zend-2.0"),
  ("zimbra-1.3", "Zimbra-1.3"), ("zimbra-1.4", "Zimbra-1.4"), ("zlib", "Zlib"),
  ("zlib-acknowledgement", "zlib-acknowledgement"), ("zpl-1.1", "ZPL-1.1"),
  ("zpl-2.0", "ZPL-2.0"), ("zpl-2.1", "ZPL-2.1")]

def canonicalSpdxLicenseId (licenseText : String) : Option String :=
  spdxLicenseIdsByLowercaseId.lookup
    (toLowerAscii (String.ofList (trimmed licenseText.toList)))

/-- The identifiers in the spelling of the list. -/
def spdxLicenseIds : List String := spdxLicenseIdsByLowercaseId.map Prod.snd

theorem mem_of_canonicalSpdxLicenseId {licenseText id : String}
    (hid : canonicalSpdxLicenseId licenseText = some id) :
    id ∈ spdxLicenseIds := by
  obtain ⟨front, back, heq, -⟩ := List.lookup_eq_some_iff.mp hid
  rw [spdxLicenseIds, heq, List.map_append]
  exact List.mem_append_right _ List.mem_cons_self

end Bomwerk.Output
