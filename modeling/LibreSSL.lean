import LibreSSL.Spec.Bytes
import LibreSSL.Spec.InetPton
import LibreSSL.Spec.Validate
import LibreSSL.Spec.Parse
import LibreSSL.Spec.Name
import LibreSSL.Spec.Match
import LibreSSL.Spec.Extract
import LibreSSL.Spec.Chain
import LibreSSL.Spec.Alloc
import LibreSSL.Spec.Names
import LibreSSL.Proof.Domain
import LibreSSL.Proof.Match
import LibreSSL.Proof.Uri
import LibreSSL.Proof.Mailbox
import LibreSSL.Proof.Extract
import LibreSSL.Proof.Alloc
import LibreSSL.Proof.Names
import LibreSSL.Proof.Pipeline
import LibreSSL.Proof.Chain
import LibreSSL.Spec.BnInternal
import LibreSSL.Proof.BnWord
import LibreSSL.Proof.BnMul
import LibreSSL.Spec.Seclevel
import LibreSSL.Proof.Seclevel
import LibreSSL.Proof.SeclevelCert
